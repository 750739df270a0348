import Mathlib.Logic.Basic
import Mathlib.Order.Basic

/-!
# Buffers that are wiped in place

A wiped buffer stays reachable to whoever holds it, and no longer holds what
was put in it. Buffers are numbered in the order they are allocated.
-/

abbrev Ref := Nat

structure Heap (β : Type) where
  cells : Ref → Option β
  top : Ref
  unused : ∀ r, top ≤ r → cells r = none

namespace Heap

variable {β : Type}

def empty : Heap β where
  cells _ := none
  top := 0
  unused _ _ := rfl

def get (h : Heap β) (r : Ref) : Option β := h.cells r

/-- The new buffer is `h.top`. -/
def alloc (h : Heap β) (b : β) : Heap β where
  cells r := if r = h.top then some b else h.cells r
  top := h.top + 1
  unused r hr := by
    rw [if_neg (Nat.ne_of_gt hr)]
    exact h.unused r (Nat.le_of_succ_le hr)

def wipe (h : Heap β) (refs : List Ref) : Heap β where
  cells r := if r ∈ refs then none else h.cells r
  top := h.top
  unused r hr := by
    split
    · rfl
    · exact h.unused r hr

@[simp] theorem get_empty (r : Ref) : (empty : Heap β).get r = none := rfl

@[simp] theorem top_alloc (h : Heap β) (b : β) : (h.alloc b).top = h.top + 1 := rfl

@[simp] theorem top_wipe (h : Heap β) (refs : List Ref) : (h.wipe refs).top = h.top := rfl

theorem get_alloc (h : Heap β) (b : β) (r : Ref) : (h.alloc b).get r = if r = h.top then some b else h.get r := rfl

@[simp] theorem get_alloc_top (h : Heap β) (b : β) : (h.alloc b).get h.top = some b := if_pos rfl

theorem get_wipe (h : Heap β) (refs : List Ref) (r : Ref) :
    (h.wipe refs).get r = if r ∈ refs then none else h.get r := rfl

theorem lt_top {h : Heap β} {r : Ref} {b : β} (hg : h.get r = some b) : r < h.top := by
  by_contra hr
  rw [get, h.unused r (Nat.le_of_not_lt hr)] at hg
  cases hg

theorem get_alloc_of_get {h : Heap β} {r : Ref} {b : β} (hg : h.get r = some b) (b' : β) :
    (h.alloc b').get r = some b := by
  rw [get_alloc, if_neg (Nat.ne_of_lt (lt_top hg)), hg]

theorem get_wipe_of_not_mem {h : Heap β} {refs : List Ref} {r : Ref} (hr : r ∉ refs) :
    (h.wipe refs).get r = h.get r :=
  if_neg hr

/-- The buffer was given to `b`, and holds it until it is wiped. -/
def Only (h : Heap β) (r : Ref) (b : β) : Prop := r < h.top ∧ ∀ b', h.get r = some b' → b' = b

theorem only_alloc (h : Heap β) (b : β) : (h.alloc b).Only h.top b := by
  refine ⟨Nat.lt_succ_self _, fun b' hb => ?_⟩
  rw [get_alloc_top] at hb
  exact (Option.some.inj hb).symm

theorem Only.alloc {h : Heap β} {r : Ref} {b : β} (hr : h.Only r b) (b' : β) : (h.alloc b').Only r b := by
  refine ⟨Nat.lt_succ_of_lt hr.1, fun b₀ hb => ?_⟩
  rw [get_alloc, if_neg (Nat.ne_of_lt hr.1)] at hb
  exact hr.2 b₀ hb

theorem Only.wipe {h : Heap β} {r : Ref} {b : β} (hr : h.Only r b) (refs : List Ref) : (h.wipe refs).Only r b := by
  refine ⟨hr.1, fun b' hb => ?_⟩
  rw [get_wipe] at hb
  split at hb
  · cases hb
  · exact hr.2 b' hb

/-- What the buffers of the first were given, they were given in the second. -/
def Later (h h' : Heap β) : Prop := ∀ r b, h.Only r b → h'.Only r b

theorem Later.refl (h : Heap β) : h.Later h := fun _ _ hr => hr

theorem Later.trans {h h' h'' : Heap β} (hl : h.Later h') (hl' : h'.Later h'') : h.Later h'' :=
  fun r b hr => hl' r b (hl r b hr)

theorem later_alloc (h : Heap β) (b : β) : h.Later (h.alloc b) := fun _ _ hr => hr.alloc b

theorem later_wipe (h : Heap β) (refs : List Ref) : h.Later (h.wipe refs) := fun _ _ hr => hr.wipe refs

end Heap
