import Mathlib.Data.Finset.Sort

/-!
# Maps of sets

The cache of counterexamples is indexed by sets of expressions. The sets are kept in a tree: a set
is stored under the path of its elements in ascending order, and the children of a node are in
ascending order as well. Searching for a stored subset walks along the query and the children side
by side; searching for a superset tries every child and the one that continues the query.

A tree carries the order of its children. It represents a function on finite sets: an insertion
updates the function at one set, and a search finds a set of the wanted kind whenever there is one.
-/

namespace CoverageVP.Klee

/-- The children of a node of the tree: the first child with its value, if a set ends there, and
its own children, and the remaining children. -/
inductive Children (K V : Type)
  | nil
  | cons (key : K) (value : Option V) (children siblings : Children K V)

namespace Children

variable {K V : Type} [LinearOrder K]

def keys : Children K V → List K
  | nil => []
  | cons key _ _ siblings => key :: siblings.keys

/-- The keys of siblings ascend, and so do the keys of every path. -/
def Sorted : Children K V → Prop
  | nil => True
  | cons key _ children siblings =>
    children.Sorted ∧ siblings.Sorted ∧ (∀ k ∈ siblings.keys, key < k) ∧
      ∀ k ∈ children.keys, key < k

/-! ## The operations -/

/-- The value stored under a path that is not empty. -/
def lookup : Children K V → List K → Option V
  | nil, _ => none
  | cons _ _ _ _, [] => none
  | cons key value children siblings, k :: ks =>
    if k = key then if ks = [] then value else children.lookup ks
    else siblings.lookup (k :: ks)

/-- A new branch in front of the given children. -/
def branch (v : V) : K → List K → Children K V → Children K V
  | k, [], siblings => cons k (some v) nil siblings
  | k, k' :: ks, siblings => cons k none (branch v k' ks nil) siblings

def insert (v : V) : Children K V → K → List K → Children K V
  | nil, k, ks => branch v k ks nil
  | cons key value children siblings, k, ks =>
    if k < key then branch v k ks (cons key value children siblings)
    else if k = key then
      match ks with
      | [] => cons key (some v) children siblings
      | k' :: ks => cons key value (children.insert v k' ks) siblings
    else cons key value children (siblings.insert v k ks)

theorem insert_cons (v : V) (key : K) (value : Option V) (children siblings : Children K V) (k : K)
    (ks : List K) :
    (cons key value children siblings).insert v k ks =
      if k < key then branch v k ks (cons key value children siblings)
      else if k = key then
        match ks with
        | [] => cons key (some v) children siblings
        | k' :: ks => cons key value (children.insert v k' ks) siblings
      else cons key value children (siblings.insert v k ks) := by
  cases ks <;> rfl

variable (p : V → Bool)

def findSubset : Children K V → List K → Option V
  | nil, _ => none
  | cons key value children siblings, query =>
    match query.dropWhile (· < key) with
    | [] => none
    | x :: rest =>
      if x = key then
        match value.filter p with
        | some v => some v
        | none =>
          match children.findSubset rest with
          | some v => some v
          | none => siblings.findSubset rest
      else siblings.findSubset (x :: rest)

mutual

/-- Every child is searched for the query. -/
def findSuperset : Children K V → List K → Option V
  | nil, _ => none
  | cons _ value children siblings, query =>
    match query with
    | [] => ((value.filter p).or (children.findSuperset [])).or (siblings.findSuperset [])
    | x :: rest =>
      ((children.findSuperset (x :: rest)).or (children.findSupersetAt x rest)).or
        (siblings.findSuperset (x :: rest))

/-- The child at the first element of the query is searched for the rest of it. -/
def findSupersetAt : Children K V → K → List K → Option V
  | nil, _, _ => none
  | cons key value children siblings, x, rest =>
    if x = key then
      match rest with
      | [] => (value.filter p).or (children.findSuperset [])
      | y :: rest => (children.findSuperset (y :: rest)).or (children.findSupersetAt y rest)
    else siblings.findSupersetAt x rest

end

variable {p}

theorem mem_keys_of_lookup {t : Children K V} {k : K} {ks : List K} {v : V}
    (h : t.lookup (k :: ks) = some v) : k ∈ t.keys := by
  induction t with
  | nil => cases h
  | cons key value children siblings _ ih =>
    rw [lookup] at h
    by_cases hk : k = key
    · exact hk ▸ List.mem_cons_self
    · rw [if_neg hk] at h
      exact List.mem_cons_of_mem _ (ih h)

theorem lookup_nil (t : Children K V) : t.lookup [] = none := by
  cases t <;> rfl

theorem lookup_of_notMem {t : Children K V} {k : K} (ks : List K) (h : k ∉ t.keys) :
    t.lookup (k :: ks) = none := by
  cases hlookup : t.lookup (k :: ks) with
  | none => rfl
  | some v => exact absurd (mem_keys_of_lookup hlookup) h

/-- What is found among the later children is found. -/
theorem lookup_siblings {key : K} {value : Option V} {children siblings : Children K V}
    (hsorted : (cons key value children siblings).Sorted) {s : List K} {v : V}
    (h : siblings.lookup s = some v) : (cons key value children siblings).lookup s = some v := by
  cases s with
  | nil =>
    rw [lookup_nil] at h
    cases h
  | cons k ks =>
    have hne : k ≠ key := (hsorted.2.2.1 k (mem_keys_of_lookup h)).ne'
    rw [lookup, if_neg hne, h]

/-- A path with a value ascends. -/
theorem pairwise_of_lookup {t : Children K V} (hsorted : t.Sorted) {s : List K} {v : V}
    (h : t.lookup s = some v) : s.Pairwise (· < ·) := by
  induction t generalizing s with
  | nil => cases h
  | cons key value children siblings ihc ihs =>
    obtain ⟨hchildren, hsiblings, -, hpath⟩ := hsorted
    cases s with
    | nil => cases h
    | cons k ks =>
      rw [lookup] at h
      split_ifs at h with hk hks
      · exact hks ▸ List.pairwise_singleton _ k
      · have hrest := ihc hchildren h
        refine List.pairwise_cons.mpr ⟨fun x hx ↦ hk ▸ ?_, hrest⟩
        cases ks with
        | nil => exact absurd hx List.not_mem_nil
        | cons k' ks =>
          have hhead : key < k' := hpath k' (mem_keys_of_lookup h)
          rcases List.mem_cons.mp hx with rfl | hx
          · exact hhead
          · exact hhead.trans ((List.pairwise_cons.mp hrest).1 x hx)
      · exact ihs hsiblings h

omit [LinearOrder K] in
theorem keys_branch (v : V) (k : K) (ks : List K) (siblings : Children K V) :
    (branch v k ks siblings).keys = k :: siblings.keys := by
  cases ks <;> rfl

theorem sorted_branch (v : V) {k : K} {ks : List K} (hks : (k :: ks).Pairwise (· < ·))
    {siblings : Children K V} (h : siblings.Sorted) (hk : ∀ k' ∈ siblings.keys, k < k') :
    (branch v k ks siblings).Sorted := by
  induction ks generalizing k siblings with
  | nil => exact ⟨trivial, h, hk, fun _ h ↦ absurd h List.not_mem_nil⟩
  | cons k' ks ih =>
    obtain ⟨hlt, hks⟩ := List.pairwise_cons.mp hks
    refine ⟨ih hks trivial fun _ h ↦ absurd h List.not_mem_nil, h, hk, fun x hx ↦ ?_⟩
    rw [keys_branch] at hx
    obtain rfl := List.mem_singleton.mp hx
    exact hlt x List.mem_cons_self

theorem mem_keys_insert {v : V} {t : Children K V} {k x : K} {ks : List K}
    (h : x ∈ (t.insert v k ks).keys) : x = k ∨ x ∈ t.keys := by
  induction t generalizing k ks with
  | nil =>
    rw [insert, keys_branch] at h
    exact (List.mem_cons.mp h).imp_right fun h ↦ h
  | cons key value children siblings _ ih =>
    rw [insert_cons] at h
    split_ifs at h with hlt heq
    · rw [keys_branch] at h
      exact List.mem_cons.mp h
    · cases ks <;> exact .inr h
    · rcases List.mem_cons.mp h with rfl | h
      · exact .inr List.mem_cons_self
      · exact (ih h).imp_right (List.mem_cons_of_mem _)

theorem sorted_insert (v : V) {t : Children K V} (h : t.Sorted) {k : K} {ks : List K}
    (hks : (k :: ks).Pairwise (· < ·)) : (t.insert v k ks).Sorted := by
  induction t generalizing k ks with
  | nil => exact sorted_branch v hks trivial fun _ h ↦ absurd h List.not_mem_nil
  | cons key value children siblings ihc ihs =>
    obtain ⟨hchildren, hsiblings, hkey, hpath⟩ := h
    rw [insert_cons]
    split_ifs with hlt heq
    · refine sorted_branch v hks ⟨hchildren, hsiblings, hkey, hpath⟩ fun x hx ↦ ?_
      rcases List.mem_cons.mp hx with rfl | hx
      · exact hlt
      · exact hlt.trans (hkey x hx)
    · cases ks with
      | nil => exact ⟨hchildren, hsiblings, hkey, hpath⟩
      | cons k' ks =>
        obtain ⟨hk, hks⟩ := List.pairwise_cons.mp hks
        refine ⟨ihc hchildren hks, hsiblings, hkey, fun x hx ↦ ?_⟩
        rcases mem_keys_insert hx with rfl | hx
        · exact heq ▸ hk x List.mem_cons_self
        · exact hpath x hx
    · refine ⟨hchildren, ihs hsiblings hks, fun x hx ↦ ?_, hpath⟩
      rcases mem_keys_insert hx with rfl | hx
      · exact lt_of_le_of_ne (not_lt.mp hlt) (Ne.symm heq)
      · exact hkey x hx

theorem lookup_branch (v : V) {k : K} (ks : List K) {siblings : Children K V}
    (hk : k ∉ siblings.keys) (s : List K) :
    (branch v k ks siblings).lookup s = if s = k :: ks then some v else siblings.lookup s := by
  induction ks generalizing k siblings s with
  | nil =>
    cases s with
    | nil => simp [branch, lookup_nil]
    | cons x xs =>
      rw [branch, lookup]
      by_cases hx : x = k
      · subst hx
        cases xs with
        | nil => simp
        | cons y ys => simp [lookup, lookup_of_notMem _ hk]
      · simp [hx]
  | cons k' ks ih =>
    cases s with
    | nil => simp [branch, lookup_nil]
    | cons x xs =>
      rw [branch, lookup]
      by_cases hx : x = k
      · subst hx
        cases xs with
        | nil => simp [lookup_of_notMem _ hk]
        | cons y ys =>
          rw [if_pos rfl, if_neg (List.cons_ne_nil _ _), ih List.not_mem_nil]
          simp [lookup, lookup_of_notMem _ hk]
      · simp [hx]

/-- An insertion updates the tree at one path. -/
theorem lookup_insert (v : V) {t : Children K V} (h : t.Sorted) (k : K) (ks s : List K) :
    (t.insert v k ks).lookup s = if s = k :: ks then some v else t.lookup s := by
  induction t generalizing k ks s with
  | nil => exact lookup_branch v ks List.not_mem_nil s
  | cons key value children siblings ihc ihs =>
    obtain ⟨hchildren, hsiblings, hkey, -⟩ := h
    rw [insert_cons]
    rcases lt_trichotomy k key with hlt | rfl | hgt
    · rw [if_pos hlt]
      refine lookup_branch v ks (fun hmem ↦ ?_) s
      rcases List.mem_cons.mp hmem with rfl | hmem
      · exact lt_irrefl _ hlt
      · exact lt_asymm hlt (hkey k hmem)
    · rw [if_neg (lt_irrefl k), if_pos rfl]
      cases s with
      | nil => cases ks <;> simp [lookup_nil]
      | cons x xs =>
        by_cases hx : x = k
        · subst hx
          cases ks with
          | nil => cases xs <;> simp [lookup]
          | cons k' ks => cases xs <;> simp [lookup, ihc hchildren]
        · cases ks <;> simp [lookup, hx]
    · rw [if_neg hgt.not_gt, if_neg hgt.ne']
      cases s with
      | nil => simp [lookup_nil]
      | cons x xs =>
        rw [lookup, lookup, ihs hsiblings]
        by_cases hx : x = key
        · have hne : ¬ (key = k ∧ xs = ks) := fun h ↦ hgt.ne h.1
          simp [hx, hne]
        · simp [hx]

/-! ## Searching a subset -/

theorem lookup_key {key : K} {value : Option V} {children siblings : Children K V} :
    (cons key value children siblings).lookup [key] = value := by
  rw [lookup, if_pos rfl, if_pos rfl]

theorem lookup_children {key : K} {value : Option V} {children siblings : Children K V}
    {s : List K} {v : V} (h : children.lookup s = some v) :
    (cons key value children siblings).lookup (key :: s) = some v := by
  cases s with
  | nil =>
    rw [lookup_nil] at h
    cases h
  | cons k ks => rw [lookup, if_pos rfl, if_neg (List.cons_ne_nil _ _), h]

theorem findSubset_sound {t : Children K V} (h : t.Sorted) {query : List K} {v : V}
    (hfind : t.findSubset p query = some v) :
    ∃ s, t.lookup s = some v ∧ p v = true ∧ ∀ k ∈ s, k ∈ query := by
  induction t generalizing query with
  | nil => cases hfind
  | cons key value children siblings ihc ihs =>
    rw [findSubset] at hfind
    have hsub : ∀ k ∈ query.dropWhile (· < key), k ∈ query :=
      fun k hk ↦ (query.dropWhile_sublist _).subset hk
    cases hdrop : query.dropWhile (· < key) with
    | nil =>
      rw [hdrop] at hfind
      cases hfind
    | cons x rest =>
      rw [hdrop] at hfind hsub
      have hlater {q : List K} (hq : ∀ k ∈ q, k ∈ x :: rest)
          (hfind : siblings.findSubset p q = some v) :
          ∃ s, (cons key value children siblings).lookup s = some v ∧ p v = true ∧
            ∀ k ∈ s, k ∈ query := by
        obtain ⟨s, hs, hp, hmem⟩ := ihs h.2.1 hfind
        exact ⟨s, lookup_siblings h hs, hp, fun k hk ↦ hsub k (hq k (hmem k hk))⟩
      simp only at hfind
      split_ifs at hfind with hx
      · subst hx
        cases hvalue : value.filter p with
        | some v' =>
          rw [hvalue] at hfind
          obtain rfl := Option.some.inj hfind
          obtain ⟨rfl, hp⟩ := Option.filter_eq_some_iff.mp hvalue
          exact ⟨[x], lookup_key, hp, fun k hk ↦
            hsub k (List.mem_singleton.mp hk ▸ List.mem_cons_self)⟩
        | none =>
          rw [hvalue] at hfind
          simp only at hfind
          cases hchildren : children.findSubset p rest with
          | some v' =>
            rw [hchildren] at hfind
            obtain rfl := Option.some.inj hfind
            obtain ⟨s, hs, hp, hmem⟩ := ihc h.1 hchildren
            refine ⟨x :: s, lookup_children hs, hp, fun k hk ↦ hsub k ?_⟩
            exact (List.mem_cons.mp hk).elim (fun h ↦ h ▸ List.mem_cons_self)
              fun h ↦ List.mem_cons_of_mem _ (hmem k h)
          | none =>
            rw [hchildren] at hfind
            exact hlater (fun k hk ↦ List.mem_cons_of_mem _ hk) hfind
      · exact hlater (fun k hk ↦ hk) hfind

theorem mem_dropWhile_of_le {query : List K} {key k : K} (hk : k ∈ query) (hle : key ≤ k) :
    k ∈ query.dropWhile (· < key) := by
  induction query with
  | nil => exact absurd hk List.not_mem_nil
  | cons x rest ih =>
    rw [List.dropWhile_cons]
    split_ifs with hx
    · rcases List.mem_cons.mp hk with rfl | hk
      · exact absurd (of_decide_eq_true hx) hle.not_gt
      · exact ih hk
    · exact hk

/-- A stored subset of the query is not missed. -/
theorem findSubset_complete {t : Children K V} (h : t.Sorted) {query s : List K} {v : V}
    (hquery : query.Pairwise (· < ·)) (hs : s.Pairwise (· < ·)) (hsub : ∀ k ∈ s, k ∈ query)
    (hlookup : t.lookup s = some v) (hp : p v = true) : (t.findSubset p query).isSome := by
  induction t generalizing query s with
  | nil => cases hlookup
  | cons key value children siblings ihc ihs =>
    obtain ⟨hchildren, hsiblings, hkey, -⟩ := h
    cases s with
    | nil => cases hlookup
    | cons k ks =>
      obtain ⟨hks, hsorted⟩ := List.pairwise_cons.mp hs
      rw [lookup] at hlookup
      have hk : key ≤ k := by
        by_cases heq : k = key
        · exact heq.ge
        · rw [if_neg heq] at hlookup
          exact (hkey k (mem_keys_of_lookup hlookup)).le
      have hge : ∀ x ∈ k :: ks, key ≤ x := fun x hx ↦
        (List.mem_cons.mp hx).elim (fun h ↦ h ▸ hk) fun h ↦ hk.trans (hks x h).le
      have hmem : ∀ x ∈ k :: ks, x ∈ query.dropWhile (· < key) := fun x hx ↦
        mem_dropWhile_of_le (hsub x hx) (hge x hx)
      have hdropped := hquery.sublist (query.dropWhile_sublist (· < key))
      rw [findSubset]
      cases hdrop : query.dropWhile (· < key) with
      | nil => exact absurd (hdrop ▸ hmem k List.mem_cons_self) List.not_mem_nil
      | cons x rest =>
        have hhead := List.head?_dropWhile_not (· < key) query
        rw [hdrop] at hmem hdropped hhead
        have hx : key ≤ x := not_lt.mp (of_decide_eq_false hhead)
        obtain ⟨hrest, hrestSorted⟩ := List.pairwise_cons.mp hdropped
        simp only
        by_cases heq : k = key
        · subst heq
          rw [if_pos rfl] at hlookup
          obtain rfl : x = k := by
            rcases List.mem_cons.mp (hmem k List.mem_cons_self) with h | h
            · exact h.symm
            · exact absurd (hrest k h) hx.not_gt
          rw [if_pos rfl]
          cases hvalue : value.filter p with
          | some v' => rfl
          | none =>
            simp only
            have hne : ks ≠ [] := by
              rintro rfl
              rw [if_pos rfl] at hlookup
              rw [hlookup, Option.filter_some, if_pos hp] at hvalue
              cases hvalue
            rw [if_neg hne] at hlookup
            have hfound := ihc hchildren hrestSorted hsorted (fun y hy ↦
              (List.mem_cons.mp (hmem y (List.mem_cons_of_mem _ hy))).resolve_left
                (hks y hy).ne') hlookup
            obtain ⟨v', hv'⟩ := Option.isSome_iff_exists.mp hfound
            rw [hv']
            rfl
        · rw [if_neg heq] at hlookup
          have hlt : key < k := lt_of_le_of_ne hk (Ne.symm heq)
          have hfound {q : List K} (hq : q.Pairwise (· < ·)) (hmem : ∀ y ∈ k :: ks, y ∈ q) :
              (siblings.findSubset p q).isSome := ihs hsiblings hq hs hmem hlookup
          split_ifs with hxkey
          · have hlater := hfound hrestSorted fun y hy ↦ by
              refine (List.mem_cons.mp (hmem y hy)).resolve_left fun h ↦ ?_
              have hky : k ≤ y := (List.mem_cons.mp hy).elim (fun h ↦ h.ge) fun h ↦ (hks y h).le
              exact (hlt.trans_le hky).ne' (h.trans hxkey)
            cases value.filter p with
            | some v' => rfl
            | none =>
              cases children.findSubset p rest with
              | some v' => rfl
              | none => exact hlater
          · exact hfound hdropped hmem

/-! ## Searching a superset -/

/-- The search of a node. -/
def supersetOfNode (p : V → Bool) (value : Option V) (children : Children K V) (query : List K) :
    Option V :=
  match query with
  | [] => (value.filter p).or (children.findSuperset p [])
  | x :: rest => (children.findSuperset p (x :: rest)).or (children.findSupersetAt p x rest)

theorem findSuperset_cons (key : K) (value : Option V) (children siblings : Children K V)
    (query : List K) :
    (cons key value children siblings).findSuperset p query =
      (supersetOfNode p value children query).or (siblings.findSuperset p query) := by
  cases query <;> rfl

theorem findSupersetAt_cons (key : K) (value : Option V) (children siblings : Children K V) (x : K)
    (rest : List K) :
    (cons key value children siblings).findSupersetAt p x rest =
      if x = key then supersetOfNode p value children rest
      else siblings.findSupersetAt p x rest := by
  cases rest <;> rfl

/-- The value of a node or of a path below it. -/
def lookupNode (value : Option V) (children : Children K V) (s : List K) : Option V :=
  if s = [] then value else children.lookup s

theorem lookup_cons_key {key : K} {value : Option V} {children siblings : Children K V}
    (s : List K) :
    (cons key value children siblings).lookup (key :: s) = lookupNode value children s := by
  rw [lookup, if_pos rfl]
  rfl

theorem lookupNode_of_children {value : Option V} {children : Children K V} {s : List K} {v : V}
    (h : children.lookup s = some v) : lookupNode value children s = some v := by
  rw [lookupNode, if_neg, h]
  rintro rfl
  rw [lookup_nil] at h
  cases h

theorem supersetOfNode_sound_of {value : Option V} {children : Children K V} {v : V}
    (hall : ∀ query, children.findSuperset p query = some v →
      ∃ s, children.lookup s = some v ∧ p v = true ∧ ∀ k ∈ query, k ∈ s)
    (hat : ∀ x rest, children.findSupersetAt p x rest = some v →
      ∃ s, children.lookup s = some v ∧ p v = true ∧ ∀ k ∈ x :: rest, k ∈ s)
    {query : List K} (hfind : supersetOfNode p value children query = some v) :
    ∃ s, lookupNode value children s = some v ∧ p v = true ∧ ∀ k ∈ query, k ∈ s := by
  have hbelow (h : ∃ s, children.lookup s = some v ∧ p v = true ∧ ∀ k ∈ query, k ∈ s) :
      ∃ s, lookupNode value children s = some v ∧ p v = true ∧ ∀ k ∈ query, k ∈ s :=
    h.imp fun s hs ↦ ⟨lookupNode_of_children hs.1, hs.2⟩
  cases query with
  | nil =>
    rcases Option.or_eq_some_iff.mp hfind with hvalue | ⟨-, hchildren⟩
    · obtain ⟨rfl, hp⟩ := Option.filter_eq_some_iff.mp hvalue
      exact ⟨[], if_pos rfl, hp, fun k hk ↦ hk⟩
    · exact hbelow (hall [] hchildren)
  | cons x rest =>
    rcases Option.or_eq_some_iff.mp hfind with hfind | ⟨-, hfind⟩
    · exact hbelow (hall (x :: rest) hfind)
    · exact hbelow (hat x rest hfind)

theorem superset_sound {t : Children K V} (h : t.Sorted) {v : V} :
    (∀ query, t.findSuperset p query = some v →
      ∃ s, t.lookup s = some v ∧ p v = true ∧ ∀ k ∈ query, k ∈ s) ∧
    ∀ x rest, t.findSupersetAt p x rest = some v →
      ∃ s, t.lookup s = some v ∧ p v = true ∧ ∀ k ∈ x :: rest, k ∈ s := by
  induction t with
  | nil =>
    constructor
    · intro query h
      cases query <;> cases h
    · intro x rest h
      cases rest <;> cases h
  | cons key value children siblings ihc ihs =>
    obtain ⟨hall, hat⟩ := ihc h.1
    obtain ⟨hallSiblings, hatSiblings⟩ := ihs h.2.1
    constructor
    · intro query hfind
      rw [findSuperset_cons] at hfind
      rcases Option.or_eq_some_iff.mp hfind with hfind | ⟨-, hfind⟩
      · obtain ⟨s, hs, hp, hmem⟩ := supersetOfNode_sound_of hall hat hfind
        exact ⟨key :: s, (lookup_cons_key s).trans hs, hp, fun k hk ↦
          List.mem_cons_of_mem _ (hmem k hk)⟩
      · obtain ⟨s, hs, hp, hmem⟩ := hallSiblings query hfind
        exact ⟨s, lookup_siblings h hs, hp, hmem⟩
    · intro x rest hfind
      rw [findSupersetAt_cons] at hfind
      split_ifs at hfind with hx
      · obtain ⟨s, hs, hp, hmem⟩ := supersetOfNode_sound_of hall hat hfind
        refine ⟨key :: s, (lookup_cons_key s).trans hs, hp, fun k hk ↦ ?_⟩
        exact (List.mem_cons.mp hk).elim (fun h ↦ h.trans hx ▸ List.mem_cons_self)
          fun h ↦ List.mem_cons_of_mem _ (hmem k h)
      · obtain ⟨s, hs, hp, hmem⟩ := hatSiblings x rest hfind
        exact ⟨s, lookup_siblings h hs, hp, hmem⟩

theorem supersetOfNode_sound {value : Option V} {children : Children K V} (h : children.Sorted)
    {v : V} {query : List K} (hfind : supersetOfNode p value children query = some v) :
    ∃ s, lookupNode value children s = some v ∧ p v = true ∧ ∀ k ∈ query, k ∈ s :=
  supersetOfNode_sound_of (superset_sound h).1 (superset_sound h).2 hfind

theorem supersetOfNode_complete_of {value : Option V} {children : Children K V}
    {query s : List K} {v : V} (hsub : ∀ k ∈ query, k ∈ s)
    (hlookup : lookupNode value children s = some v) (hp : p v = true)
    (hchildren : children.lookup s = some v → (supersetOfNode p none children query).isSome) :
    (supersetOfNode p value children query).isSome := by
  rw [lookupNode] at hlookup
  cases query with
  | nil =>
    rw [supersetOfNode, Option.isSome_or, Bool.or_eq_true] at hchildren ⊢
    split_ifs at hlookup with hs
    · rw [hlookup, Option.filter_some, if_pos hp]
      exact .inl rfl
    · exact .inr ((hchildren hlookup).resolve_left (by simp))
  | cons x rest =>
    rw [if_neg (List.ne_nil_of_mem (hsub x List.mem_cons_self))] at hlookup
    exact hchildren hlookup

/-- A stored superset of the query is not missed. -/
theorem findSuperset_complete {t : Children K V} (h : t.Sorted) {query s : List K} {v : V}
    (hquery : query.Pairwise (· < ·)) (hs : s.Pairwise (· < ·)) (hsub : ∀ k ∈ query, k ∈ s)
    (hlookup : t.lookup s = some v) (hp : p v = true) :
    (supersetOfNode p none t query).isSome := by
  induction t generalizing query s with
  | nil => cases hlookup
  | cons key value children siblings ihc ihs =>
    obtain ⟨hchildren, hsiblings, hkey, -⟩ := h
    cases s with
    | nil => cases hlookup
    | cons k ks =>
      obtain ⟨hks, hsorted⟩ := List.pairwise_cons.mp hs
      by_cases heq : k = key
      · subst heq
        rw [lookup_cons_key] at hlookup
        have hnode {q : List K} (hq : q.Pairwise (· < ·)) (hsub : ∀ y ∈ q, y ∈ ks) :
            (supersetOfNode p value children q).isSome :=
          supersetOfNode_complete_of hsub hlookup hp fun h ↦ ihc hchildren hq hsorted hsub h
        cases query with
        | nil =>
          have hfound := hnode (q := []) List.Pairwise.nil fun y hy ↦ absurd hy List.not_mem_nil
          rw [supersetOfNode, findSuperset_cons]
          simp [hfound]
        | cons x rest =>
          obtain ⟨hrest, hrestSorted⟩ := List.pairwise_cons.mp hquery
          rw [supersetOfNode, findSuperset_cons, findSupersetAt_cons]
          by_cases hx : x = k
          · have hfound := hnode hrestSorted fun y hy ↦
              (List.mem_cons.mp (hsub y (List.mem_cons_of_mem _ hy))).resolve_left
                (hx ▸ hrest y hy).ne'
            simp [hx, hfound]
          · have hkx : k < x :=
              hks x ((List.mem_cons.mp (hsub x List.mem_cons_self)).resolve_left hx)
            have hfound := hnode hquery fun y hy ↦ by
              refine (List.mem_cons.mp (hsub y hy)).resolve_left (ne_of_gt ?_)
              exact (List.mem_cons.mp hy).elim (fun h ↦ h ▸ hkx) fun h ↦ hkx.trans (hrest y h)
            simp [hfound]
      · rw [lookup, if_neg heq] at hlookup
        have hlt : key < k := hkey k (mem_keys_of_lookup hlookup)
        have hfound := ihs hsiblings hquery hs hsub hlookup
        cases query with
        | nil =>
          rw [supersetOfNode, Option.isSome_or, Bool.or_eq_true] at hfound
          rw [supersetOfNode, findSuperset_cons]
          simp [hfound.resolve_left (by simp)]
        | cons x rest =>
          have hne : x ≠ key := ne_of_gt <|
            (List.mem_cons.mp (hsub x List.mem_cons_self)).elim (fun h ↦ h ▸ hlt)
              fun h ↦ hlt.trans (hks x h)
          rw [supersetOfNode, Option.isSome_or, Bool.or_eq_true] at hfound
          rw [supersetOfNode, findSuperset_cons, findSupersetAt_cons, if_neg hne]
          rcases hfound with hfound | hfound <;> simp [hfound]

theorem supersetOfNode_complete {value : Option V} {children : Children K V}
    (h : children.Sorted) {query s : List K} {v : V} (hquery : query.Pairwise (· < ·))
    (hs : s.Pairwise (· < ·)) (hsub : ∀ k ∈ query, k ∈ s)
    (hlookup : lookupNode value children s = some v) (hp : p v = true) :
    (supersetOfNode p value children query).isSome :=
  supersetOfNode_complete_of hsub hlookup hp fun hlookup ↦
    findSuperset_complete h hquery hs hsub hlookup hp

end Children

/-! ## The map -/

structure MapOfSets (K V : Type) [LinearOrder K] where
  value : Option V
  children : Children K V
  sorted : children.Sorted

namespace MapOfSets

open Children

variable {K V : Type} [LinearOrder K]

def empty : MapOfSets K V := ⟨none, nil, trivial⟩

def insertPath (m : MapOfSets K V) (v : V) (path : List K) (h : path.Pairwise (· < ·)) :
    MapOfSets K V :=
  match path, h with
  | [], _ => { m with value := some v }
  | k :: ks, h => { m with children := m.children.insert v k ks, sorted := sorted_insert v m.sorted h }

def insert (m : MapOfSets K V) (set : Finset K) (v : V) : MapOfSets K V :=
  m.insertPath v set.sort set.sortedLT_sort.pairwise

def lookup (m : MapOfSets K V) (set : Finset K) : Option V :=
  lookupNode m.value m.children set.sort

def findSubset (m : MapOfSets K V) (p : V → Bool) (set : Finset K) : Option V :=
  (m.value.filter p).or (m.children.findSubset p set.sort)

def findSuperset (m : MapOfSets K V) (p : V → Bool) (set : Finset K) : Option V :=
  supersetOfNode p m.value m.children set.sort

@[simp] theorem lookup_empty (set : Finset K) : (empty : MapOfSets K V).lookup set = none := by
  rw [lookup, lookupNode, empty]
  split_ifs <;> rfl

theorem lookup_insertPath (m : MapOfSets K V) (v : V) {path : List K}
    (h : path.Pairwise (· < ·)) (s : List K) :
    lookupNode (m.insertPath v path h).value (m.insertPath v path h).children s =
      if s = path then some v else lookupNode m.value m.children s := by
  cases path with
  | nil =>
    rw [insertPath, lookupNode, lookupNode]
    split_ifs <;> rfl
  | cons k ks =>
    rw [insertPath, lookupNode, lookupNode, lookup_insert v m.sorted]
    by_cases hs : s = []
    · rw [hs, if_pos rfl, if_neg (List.cons_ne_nil k ks).symm, if_pos rfl]
    · rw [if_neg hs, if_neg hs]

/-- An insertion updates the map at one set. -/
theorem lookup_insert (m : MapOfSets K V) (set s : Finset K) (v : V) :
    (m.insert set v).lookup s = if s = set then some v else m.lookup s := by
  rw [lookup, insert, lookup_insertPath]
  by_cases h : s = set
  · rw [if_pos h, h, if_pos rfl]
  · rw [if_neg h, if_neg fun hsort ↦ h ?_]
    · rfl
    · rw [← s.sort_toFinset (· ≤ ·), hsort, set.sort_toFinset]

/-- A path of the tree is a set of the map. -/
theorem lookup_toFinset (m : MapOfSets K V) {s : List K} (h : s.Pairwise (· < ·)) :
    m.lookup s.toFinset = lookupNode m.value m.children s := by
  rw [lookup, List.toFinset_sort (· ≤ ·) h.nodup |>.mpr (h.imp le_of_lt)]

theorem toFinset_of_lookup {m : MapOfSets K V} {s : List K} {v : V}
    (h : lookupNode m.value m.children s = some v) : m.lookup s.toFinset = some v := by
  refine (m.lookup_toFinset ?_).trans h
  rw [lookupNode] at h
  split_ifs at h with hs
  · exact hs ▸ List.Pairwise.nil
  · exact pairwise_of_lookup m.sorted h

variable {p : V → Bool}

theorem findSubset_sound {m : MapOfSets K V} {set : Finset K} {v : V}
    (h : m.findSubset p set = some v) : ∃ s ⊆ set, m.lookup s = some v ∧ p v = true := by
  rcases Option.or_eq_some_iff.mp h with hvalue | ⟨-, hchildren⟩
  · obtain ⟨hvalue, hp⟩ := Option.filter_eq_some_iff.mp hvalue
    exact ⟨_, Finset.empty_subset set, toFinset_of_lookup (s := []) hvalue, hp⟩
  · obtain ⟨s, hs, hp, hmem⟩ := Children.findSubset_sound m.sorted hchildren
    refine ⟨s.toFinset, fun k hk ↦ ?_, toFinset_of_lookup (lookupNode_of_children hs), hp⟩
    exact (Finset.mem_sort _).mp (hmem k (List.mem_toFinset.mp hk))

theorem findSubset_complete {m : MapOfSets K V} {set s : Finset K} {v : V} (hsub : s ⊆ set)
    (hlookup : m.lookup s = some v) (hp : p v = true) : (m.findSubset p set).isSome := by
  rw [findSubset, Option.isSome_or, Bool.or_eq_true]
  rw [lookup, lookupNode] at hlookup
  split_ifs at hlookup with hs
  · rw [hlookup, Option.filter_some, if_pos hp]
    exact .inl rfl
  · refine .inr (Children.findSubset_complete m.sorted set.sortedLT_sort.pairwise
      s.sortedLT_sort.pairwise (fun k hk ↦ ?_) hlookup hp)
    exact (Finset.mem_sort _).mpr (hsub ((Finset.mem_sort _).mp hk))

theorem findSuperset_sound {m : MapOfSets K V} {set : Finset K} {v : V}
    (h : m.findSuperset p set = some v) : ∃ s, set ⊆ s ∧ m.lookup s = some v ∧ p v = true := by
  obtain ⟨s, hs, hp, hmem⟩ := supersetOfNode_sound m.sorted h
  refine ⟨s.toFinset, fun k hk ↦ ?_, toFinset_of_lookup hs, hp⟩
  exact List.mem_toFinset.mpr (hmem k ((Finset.mem_sort _).mpr hk))

theorem findSuperset_complete {m : MapOfSets K V} {set s : Finset K} {v : V} (hsub : set ⊆ s)
    (hlookup : m.lookup s = some v) (hp : p v = true) : (m.findSuperset p set).isSome :=
  supersetOfNode_complete m.sorted set.sortedLT_sort.pairwise s.sortedLT_sort.pairwise
    (fun _ hk ↦ (Finset.mem_sort _).mpr (hsub ((Finset.mem_sort _).mp hk))) hlookup hp

def insertAll (insertions : List (Finset K × V)) : MapOfSets K V :=
  insertions.foldl (fun m insertion ↦ m.insert insertion.1 insertion.2) empty

/-- The value a set was inserted with last. -/
def lastInserted (insertions : List (Finset K × V)) (set : Finset K) : Option V :=
  (insertions.reverse.find? fun insertion ↦ insertion.1 = set).map Prod.snd

theorem lookup_insertAll (insertions : List (Finset K × V)) (set : Finset K) :
    (insertAll insertions).lookup set = lastInserted insertions set := by
  induction insertions using List.reverseRecOn with
  | nil => exact lookup_empty set
  | append_singleton insertions insertion ih =>
    rw [insertAll, List.foldl_concat, lookup_insert, lastInserted, List.reverse_concat,
      List.find?_cons]
    by_cases h : set = insertion.1
    · simp [h]
    · simp only [if_neg h, Ne.symm h, decide_false]
      exact ih

/-- Whatever was inserted, in whatever order, a lookup finds the last value of the set, and the two
searches find a value of the wanted kind whenever a subset or a superset of the query has one. -/
theorem searches_of_insertions (insertions : List (Finset K × V)) (p : V → Bool)
    (set : Finset K) :
    (insertAll insertions).lookup set = lastInserted insertions set ∧
    (∀ v, (insertAll insertions).findSubset p set = some v →
      ∃ s ⊆ set, lastInserted insertions s = some v ∧ p v = true) ∧
    ((insertAll insertions).findSubset p set = none →
      ∀ s ⊆ set, ∀ v, lastInserted insertions s = some v → p v = false) ∧
    (∀ v, (insertAll insertions).findSuperset p set = some v →
      ∃ s, set ⊆ s ∧ lastInserted insertions s = some v ∧ p v = true) ∧
    ((insertAll insertions).findSuperset p set = none →
      ∀ s, set ⊆ s → ∀ v, lastInserted insertions s = some v → p v = false) := by
  simp only [← lookup_insertAll]
  refine ⟨trivial, fun v ↦ findSubset_sound, fun hnone s hs v hv ↦ ?_, fun v ↦ findSuperset_sound,
    fun hnone s hs v hv ↦ ?_⟩
  · by_contra hp
    have hsome := findSubset_complete hs hv (Bool.eq_true_of_not_eq_false hp)
    rw [hnone] at hsome
    cases hsome
  · by_contra hp
    have hsome := findSuperset_complete hs hv (Bool.eq_true_of_not_eq_false hp)
    rw [hnone] at hsome
    cases hsome

end MapOfSets

end CoverageVP.Klee
