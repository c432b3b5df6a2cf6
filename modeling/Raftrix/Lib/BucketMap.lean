import Raftrix.Lib.Cursor

/-!
# A bucket seen through a function on its values

`Bucket.map` applies a function to every value and leaves the keys. All bucket operations commute with
it, so a program that stores encoded values may be followed through the decoder.
-/

namespace Lib

namespace Bucket

variable {κ ν ν' : Type} [LinearOrder κ] {f : ν → ν'}

/-- The bucket with `f` applied to every value. -/
def map (f : ν → ν') (b : Bucket κ ν) : Bucket κ ν' where
  pairs := b.pairs.map fun p => (p.1, f p.2)
  sorted := List.pairwise_map.mpr b.sorted

theorem get_map (b : Bucket κ ν) (k : κ) : (b.map f).get k = (b.get k).map f := by
  unfold get map
  rw [List.find?_map, Option.map_map, Option.map_map]
  rfl

theorem map_put (b : Bucket κ ν) (k : κ) (v : ν) : (b.put k v).map f = (b.map f).put k (f v) := by
  refine ext_get fun q => ?_
  rw [get_map, get_put, get_put, get_map]
  split <;> rfl

theorem map_deleteAll (b : Bucket κ ν) (walk : List (κ × ν)) :
    (b.deleteAll walk).map f = (b.map f).deleteAll (walk.map fun p => (p.1, f p.2)) := by
  refine ext_get fun q => ?_
  have hkeys : (walk.map fun p => (p.1, f p.2)).map Prod.fst = walk.map Prod.fst := by
    rw [List.map_map]
    rfl
  rw [get_map, get_deleteAll, get_deleteAll, get_map, hkeys]
  split <;> rfl

theorem seek_map (b : Bucket κ ν) (k : κ) :
    (b.map f).seek k = (b.seek k).map fun p => (p.1, f p.2) := by
  unfold seek map
  rw [List.dropWhile_map]
  rfl

theorem last_map (b : Bucket κ ν) : (b.map f).last = b.last.map fun p => (p.1, f p.2) :=
  List.getLast?_map

end Bucket

end Lib
