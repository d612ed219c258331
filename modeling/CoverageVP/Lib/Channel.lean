import Mathlib.Data.List.Basic

/-!
# Channels between threads

A channel passes elements on in the order in which it was given them: an element enters a queue, leaves
it, and is delivered, and another thread may act between any two of these. A semaphore counts the free
entries of the queue or its elements. A lock has one owner at a time.
-/

namespace CoverageVP.Lib

/-! ## Elements -/

/-- The elements that a channel was given, those that are not in its queue yet, the queue, those that
have left it, and those that were delivered. -/
structure Channel (α : Type) where
  input : List α
  entering : List α
  queue : List α
  leaving : List α
  output : List α

namespace Channel

variable {α : Type} (c : Channel α)

def accept (a : α) : Channel α := { c with input := c.input ++ [a], entering := c.entering ++ [a] }

def enter : Channel α := { c with entering := [], queue := c.queue ++ c.entering }

def leave (a : α) (rest : List α) : Channel α :=
  { c with queue := rest, leaving := c.leaving ++ [a] }

def deliver : Channel α := { c with leaving := [], output := c.output ++ c.leaving }

/-- No element is lost, duplicated or overtaken. -/
def Conserves : Prop := c.input = c.output ++ c.leaving ++ c.queue ++ c.entering

variable {c}

theorem Conserves.accept (h : c.Conserves) (a : α) : (c.accept a).Conserves := by
  rw [Conserves, Channel.accept, h]
  simp only [List.append_assoc]

theorem Conserves.enter (h : c.Conserves) : c.enter.Conserves := by
  rw [Conserves, Channel.enter, h]
  simp only [List.append_assoc, List.append_nil]

theorem Conserves.leave (h : c.Conserves) {a : α} {rest : List α} (hqueue : c.queue = a :: rest) :
    (c.leave a rest).Conserves := by
  rw [Conserves, Channel.leave, h, hqueue]
  simp only [List.append_assoc, List.cons_append, List.nil_append]

theorem Conserves.deliver (h : c.Conserves) : c.deliver.Conserves := by
  rw [Conserves, Channel.deliver, h]
  simp only [List.append_assoc, List.nil_append]

end Channel

section Delivery

variable {α β : Type} {f g : α → Option β}

theorem length_filterMap_le {l : List α} (h : ∀ a ∈ l, g a = none ∨ g a = f a) :
    (l.filterMap g).length ≤ (l.filterMap f).length := by
  induction l with
  | nil => exact Nat.le_refl _
  | cons a l ih =>
    have hrest := ih fun b hb ↦ h b (List.mem_cons_of_mem _ hb)
    obtain hnone | heq := h a List.mem_cons_self
    · rw [List.filterMap_cons_none hnone, List.filterMap_cons]
      split
      · exact hrest
      · exact Nat.le_succ_of_le hrest
    · rw [List.filterMap_cons, List.filterMap_cons, heq]
      split
      · exact hrest
      · exact Nat.succ_le_succ hrest

/-- Receivers that keep an element or drop it keep all of them if and only if none drops one. -/
theorem filterMap_eq_filterMap_iff {l : List α} (h : ∀ a ∈ l, g a = none ∨ g a = f a) :
    l.filterMap g = l.filterMap f ↔ ∀ a ∈ l, g a = f a := by
  refine ⟨fun heq ↦ ?_, fun heq ↦ List.filterMap_congr heq⟩
  induction l with
  | nil => exact fun a ha ↦ absurd ha List.not_mem_nil
  | cons a l ih =>
    have hrest := fun b hb ↦ h b (List.mem_cons_of_mem _ hb)
    have hhead : g a = f a := by
      obtain hnone | hhead := h a List.mem_cons_self
      · cases hf : f a with
        | none => exact hnone
        | some b =>
          have hle := length_filterMap_le hrest
          rw [List.filterMap_cons_none hnone, List.filterMap_cons_some hf] at heq
          rw [heq, List.length_cons] at hle
          exact absurd hle (Nat.not_succ_le_self _)
      · exact hhead
    rw [List.filterMap_cons, List.filterMap_cons, hhead] at heq
    have htail : l.filterMap g = l.filterMap f := by
      split at heq
      · exact heq
      · exact (List.cons.inj heq).2
    exact List.forall_mem_cons.mpr ⟨hhead, ih hrest htail⟩

end Delivery

/-- A channel with a semaphore for the free entries of its queue: an entry is taken before an element
enters, and freed after an element has left. -/
structure Credits (α : Type) where
  channel : Channel α
  free : Nat
  taken : Nat
  freed : Nat

namespace Credits

variable {α : Type}

inductive Step : Credits α → Credits α → Prop
  | stay (c : Credits α) : Step c c
  | accept {c : Credits α} (a : α) : Step c { c with channel := c.channel.accept a }
  | take {c : Credits α} (hfree : 0 < c.free) :
      Step c { c with free := c.free - 1, taken := c.taken + 1 }
  | enter {c : Credits α} (htaken : c.taken = c.channel.entering.length) :
      Step c { c with taken := 0, channel := c.channel.enter }
  | leave {c : Credits α} {a : α} {rest : List α} (hqueue : c.channel.queue = a :: rest) :
      Step c { c with freed := c.freed + 1, channel := c.channel.leave a rest }
  | post {c : Credits α} : Step c { c with free := c.free + c.freed, freed := 0 }
  | deliver {c : Credits α} : Step c { c with channel := c.channel.deliver }

/-- Every entry is free, taken, used or about to be free. -/
structure Balanced (depth : Nat) (c : Credits α) : Prop where
  entries : c.free + c.channel.queue.length + c.taken + c.freed = depth
  conserves : c.channel.Conserves

theorem Balanced.step {depth : Nat} {c c' : Credits α} (h : c.Balanced depth) (hstep : Step c c') :
    c'.Balanced depth := by
  have hentries := h.entries
  cases hstep with
  | stay => exact h
  | accept a => exact ⟨hentries, h.conserves.accept a⟩
  | take hfree =>
    refine ⟨?_, h.conserves⟩
    dsimp only
    omega
  | enter htaken =>
    refine ⟨?_, h.conserves.enter⟩
    dsimp only [Channel.enter]
    rw [List.length_append]
    omega
  | leave hqueue =>
    refine ⟨?_, h.conserves.leave hqueue⟩
    rw [hqueue, List.length_cons] at hentries
    dsimp only [Channel.leave]
    omega
  | post =>
    refine ⟨?_, h.conserves⟩
    dsimp only
    omega
  | deliver => exact ⟨hentries, h.conserves.deliver⟩

end Credits

/-! ## Elements in the queue -/

/-- A channel with a semaphore for the elements of its queue: an element is posted after it has entered,
and claimed before it leaves. Elements are accepted while the queue has room. -/
structure Counted (α : Type) where
  channel : Channel α
  count : Nat
  unposted : Nat
  claimed : Nat

namespace Counted

variable {α : Type}

inductive Step (depth : Nat) : Counted α → Counted α → Prop
  | stay (c : Counted α) : Step depth c c
  | accept {c : Counted α} (a : α) (hroom : c.channel.queue.length < depth)
      (hentering : c.channel.entering = []) :
      Step depth c { c with channel := c.channel.accept a }
  | enter {c : Counted α} : Step depth c
      { c with unposted := c.unposted + c.channel.entering.length, channel := c.channel.enter }
  | post {c : Counted α} : Step depth c { c with count := c.count + c.unposted, unposted := 0 }
  | claim {c : Counted α} (hcount : 0 < c.count) :
      Step depth c { c with count := c.count - 1, claimed := c.claimed + 1 }
  | leave {c : Counted α} {a : α} {rest : List α} (hqueue : c.channel.queue = a :: rest)
      (hclaimed : 0 < c.claimed) :
      Step depth c { c with claimed := c.claimed - 1, channel := c.channel.leave a rest }
  | deliver {c : Counted α} : Step depth c { c with channel := c.channel.deliver }

/-- Every element is posted, about to be posted or claimed, and there is room for those that enter. -/
structure Balanced (depth : Nat) (c : Counted α) : Prop where
  elements : c.channel.queue.length = c.count + c.unposted + c.claimed
  room : c.channel.queue.length + c.channel.entering.length ≤ depth
  conserves : c.channel.Conserves

theorem Balanced.step {depth : Nat} {c c' : Counted α} (h : c.Balanced depth)
    (hstep : Step depth c c') : c'.Balanced depth := by
  have helements := h.elements
  have hroom := h.room
  cases hstep with
  | stay => exact h
  | accept a hlt hentering =>
    refine ⟨helements, ?_, h.conserves.accept a⟩
    rw [Channel.accept, hentering]
    exact hlt
  | enter =>
    refine ⟨?_, ?_, h.conserves.enter⟩
    · dsimp only [Channel.enter]
      rw [List.length_append]
      omega
    · dsimp only [Channel.enter]
      rw [List.length_append]
      exact hroom
  | post =>
    refine ⟨?_, hroom, h.conserves⟩
    dsimp only
    omega
  | claim hcount =>
    refine ⟨?_, hroom, h.conserves⟩
    dsimp only
    omega
  | leave hqueue hclaimed =>
    rw [hqueue, List.length_cons] at helements hroom
    refine ⟨?_, ?_, h.conserves.leave hqueue⟩
    · dsimp only [Channel.leave]
      omega
    · dsimp only [Channel.leave]
      omega
  | deliver => exact ⟨helements, hroom, h.conserves.deliver⟩

/-- A claim is for an element. -/
theorem Balanced.queue_ne_nil {depth : Nat} {c : Counted α} (h : c.Balanced depth)
    (hclaimed : 0 < c.claimed) : c.channel.queue ≠ [] := by
  intro hnil
  have helements := h.elements
  rw [hnil, List.length_nil] at helements
  omega

end Counted

/-! ## Locks -/

/-- The owner of a lock, and the threads that are going to unlock it. -/
structure Lock (τ : Type) where
  owner : Option τ
  holds : τ → Bool

namespace Lock

variable {τ : Type}

inductive Step : Lock τ → Lock τ → Prop
  | stay {l l' : Lock τ} (howner : l'.owner = l.owner) (hholds : ∀ t, l'.holds t = l.holds t) :
      Step l l'
  | lock {l l' : Lock τ} (t : τ) (hnone : l.owner = none) (howner : l'.owner = some t)
      (hself : l'.holds t = true) (hothers : ∀ u, u ≠ t → l'.holds u = l.holds u) : Step l l'
  | unlock {l l' : Lock τ} (t : τ) (hheld : l.holds t = true) (howner : l'.owner = none)
      (hself : l'.holds t = false) (hothers : ∀ u, u ≠ t → l'.holds u = l.holds u) : Step l l'

/-- The threads that are going to unlock a lock own it. -/
def Owned (l : Lock τ) : Prop := ∀ t, l.holds t = true ↔ l.owner = some t

/-- A lock has one owner. -/
theorem Owned.exclusive {l : Lock τ} (h : l.Owned) {t u : τ} (ht : l.holds t = true)
    (hu : l.holds u = true) : t = u :=
  Option.some.inj (((h t).mp ht).symm.trans ((h u).mp hu))

theorem Owned.owner_eq_none {l : Lock τ} (h : l.Owned) (hholds : ∀ t, l.holds t = false) :
    l.owner = none := by
  cases howner : l.owner with
  | none => rfl
  | some t => exact absurd ((h t).mpr howner) (Bool.eq_false_iff.mp (hholds t))

theorem Owned.step {l l' : Lock τ} (h : l.Owned) (hstep : Step l l') : l'.Owned := by
  intro u
  cases hstep with
  | stay howner hholds =>
    rw [howner, hholds]
    exact h u
  | lock t hnone howner hself hothers =>
    rw [howner]
    by_cases hu : u = t
    · subst hu
      exact iff_of_true hself rfl
    · rw [hothers u hu, h u, hnone]
      exact iff_of_false (Option.some_ne_none u).symm fun h ↦ hu (Option.some.inj h).symm
  | unlock t hheld howner hself hothers =>
    rw [howner]
    refine iff_of_false (fun hu ↦ ?_) (Option.some_ne_none u).symm
    by_cases hut : u = t
    · subst hut
      exact Bool.false_ne_true (hself.symm.trans hu)
    · rw [hothers u hut] at hu
      exact hut (h.exclusive hu hheld)

end Lock

end CoverageVP.Lib
