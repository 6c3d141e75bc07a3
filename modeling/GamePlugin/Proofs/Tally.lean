import GamePlugin.Proofs.Recall
import Mathlib.Algebra.BigOperators.Group.Finset.Basic

/-!
# Counting sub-blocks

A session counts the sub-blocks that it resolves, over all blocks, to keep within a limit. Each block
lists the labels of its own. `Session.total` adds up over all nodes what each of them remembers, and
`Session.Charged` compares two sessions: how much was counted from the one to the other, and how
many sub-blocks were resolved.

## Main definitions

* `Session.total` — a sum over what all nodes remember.
* `Session.Charged` — what was counted and what was resolved between two sessions.
-/

namespace GamePlugin.Session

variable {s t u : Session} {id : Nat} {g : GroupNode} {f : CellCache → Nat}

/-! ## Sums over all nodes -/

/-- The sum of what nodes remember, each measured in the same way. -/
def total (s : Session) (f : CellCache → Nat) : Nat := ∑ c ∈ Finset.range s.groups.size, f (s.cache c)

theorem cache_of_size_le {c : Nat} (hc : s.groups.size ≤ c) : s.cache c = {} := by
  simp [cache, group?, Array.getElem?_eq_none hc]

/-- Indices without a node add nothing. -/
theorem total_eq_sum_range (hf : f {} = 0) {n : Nat} (hn : s.groups.size ≤ n) :
    s.total f = ∑ c ∈ Finset.range n, f (s.cache c) := by
  refine Finset.sum_subset (Finset.range_mono hn) fun c _ hc => ?_
  rw [cache_of_size_le (Nat.le_of_not_lt fun hlt => hc (Finset.mem_range.mpr hlt)), hf]

theorem total_congr (hf : f {} = 0) (hcache : ∀ c, t.cache c = s.cache c) : t.total f = s.total f := by
  rw [total_eq_sum_range hf (Nat.le_max_left t.groups.size s.groups.size),
    total_eq_sum_range hf (Nat.le_max_right t.groups.size s.groups.size)]
  simp only [hcache]

/-- Where only one node changes, so does one summand. -/
theorem total_of_cache_eq_ite {k : CellCache} (hid : id < s.groups.size)
    (hsize : t.groups.size = s.groups.size)
    (hcache : ∀ c, t.cache c = if id = c then k else s.cache c) :
    t.total f + f (s.cache id) = s.total f + f k := by
  have hmem : id ∈ Finset.range s.groups.size := Finset.mem_range.mpr hid
  have hrest : ∑ c ∈ (Finset.range s.groups.size).erase id, f (t.cache c) =
      ∑ c ∈ (Finset.range s.groups.size).erase id, f (s.cache c) := by
    refine Finset.sum_congr rfl fun c hc => ?_
    rw [hcache, if_neg (Finset.ne_of_mem_erase hc).symm]
  have hself : t.cache id = k := (hcache id).trans (if_pos rfl)
  rw [total, total, hsize, ← Finset.add_sum_erase _ _ hmem, ← Finset.add_sum_erase _ _ hmem, hrest,
    hself]
  omega

theorem total_eq_zero (hf : f {} = 0) (hempty : ∀ c, s.cache c = {}) : s.total f = 0 :=
  Finset.sum_eq_zero fun c _ => by rw [hempty, hf]

/-- The number of sub-blocks that have been resolved. -/
def resolvedCount (s : Session) : Nat := s.total fun cache => cache.resolved.length

theorem resolvedCount_resolve (hid : s.group? id = some g) (world : FormId) (key : UInt32)
    (subBlock : Nat) :
    (s.resolve id world key subBlock).resolvedCount = s.resolvedCount + 1 := by
  have hcache (c : Nat) : (s.resolve id world key subBlock).cache c =
      if id = c then { s.recollect world (s.cache id) subBlock with
        resolved := key :: (s.cache id).resolved } else s.cache c := by
    rw [cache_resolve hid]
    by_cases hc : id = c
    · rw [hc]
    · rw [if_neg hc, if_neg hc]
  have htotal := total_of_cache_eq_ite (f := fun cache => cache.resolved.length) (lt_of_group? hid)
    (alike_resolve s id world key subBlock).size_eq hcache
  rw [List.length_cons] at htotal
  rw [resolvedCount, resolvedCount]
  omega

/-! ## What is counted -/

/-- From one session to the other, so many sub-blocks were counted, and so many resolved. The count
is kept within the limit. -/
structure Charged (limit : Option Nat) (s t : Session) (taken resolved : Nat) : Prop where
  count_eq : t.subBlocksLoaded = s.subBlocksLoaded + taken
  resolved_eq : t.resolvedCount = s.resolvedCount + resolved
  within : ∀ n, limit = some n → s.subBlocksLoaded ≤ n → t.subBlocksLoaded ≤ n

variable {limit : Option Nat}

theorem Charged.trans {a b c d : Nat} (C : Charged limit s t a b) (D : Charged limit t u c d) :
    Charged limit s u (a + c) (b + d) where
  count_eq := by rw [D.count_eq, C.count_eq, Nat.add_assoc]
  resolved_eq := by rw [D.resolved_eq, C.resolved_eq, Nat.add_assoc]
  within n hn hs := D.within n hn (C.within n hn hs)

/-- Loading counts nothing. -/
theorem Loads.charged (L : Loads s t) (limit : Option Nat) : Charged limit s t 0 0 where
  count_eq := L.count_eq
  resolved_eq := total_congr rfl L.cache_eq
  within _ _ hs := L.count_eq ▸ hs

/-- One more sub-block is counted, if the limit allows it. -/
theorem charged_count (hleft : ¬limit.any (· ≤ s.subBlocksLoaded)) :
    Charged limit s { s with subBlocksLoaded := s.subBlocksLoaded + 1 } 1 0 where
  count_eq := rfl
  resolved_eq := total_congr rfl fun _ => rfl
  within n hn _ := by
    rw [hn, Option.any_some, decide_eq_true_eq] at hleft
    exact Nat.lt_of_not_le hleft

theorem charged_resolve (hid : s.group? id = some g) (world : FormId) (key : UInt32)
    (subBlock : Nat) : Charged limit s (s.resolve id world key subBlock) 0 1 where
  count_eq := rfl
  resolved_eq := resolvedCount_resolve hid world key subBlock
  within _ _ hs := hs

end GamePlugin.Session
