import SqlAssembly.Query

/-! Merging two queries into one. The empty query is neutral and the grouping of merges does not
   matter, so queries can be kept in pieces and put together later. -/
namespace SqlAssembly

namespace Query

def empty : Query := ⟨false, [], none, [], [], [], [], [], none, none⟩

def mergeBound (pick : Nat → Nat → Nat) : Option Nat → Option Nat → Option Nat
  | some a, some b => some (pick a b)
  | some a, none => some a
  | none, b => b

/-- Lists are joined, first query first. Of two tables the first counts, of two limits the
    smaller and of two offsets the larger. -/
def merge (a b : Query) : Query where
  distinct := a.distinct || b.distinct
  columns := a.columns ++ b.columns
  source := a.source.or b.source
  joins := a.joins ++ b.joins
  filters := a.filters ++ b.filters
  groups := a.groups ++ b.groups
  groupFilters := a.groupFilters ++ b.groupFilters
  order := a.order ++ b.order
  limit := mergeBound min a.limit b.limit
  offset := mergeBound max a.offset b.offset

theorem merge_empty (q : Query) : q.merge empty = q := by
  rcases q with ⟨d, c, s, j, f, g, h, o, l, k⟩
  cases s <;> cases l <;> cases k <;> simp [merge, empty, mergeBound]

theorem empty_merge (q : Query) : empty.merge q = q := by
  rcases q with ⟨d, c, s, j, f, g, h, o, l, k⟩
  simp [merge, empty, mergeBound]

theorem mergeBound_assoc (pick : Nat → Nat → Nat)
    (assoc : ∀ a b c, pick (pick a b) c = pick a (pick b c)) (a b c : Option Nat) :
    mergeBound pick (mergeBound pick a b) c = mergeBound pick a (mergeBound pick b c) := by
  cases a <;> cases b <;> cases c <;> simp [mergeBound, assoc]

theorem merge_assoc (a b c : Query) : (a.merge b).merge c = a.merge (b.merge c) := by
  simp [merge, Bool.or_assoc, Option.or_assoc, mergeBound_assoc _ Nat.min_assoc,
    mergeBound_assoc _ Nat.max_assoc]

end Query

end SqlAssembly
