import Feagi.Vision.Python
import Mathlib.Algebra.BigOperators.Ring
import Mathlib.Algebra.BigOperators.Ring.List
import Mathlib.Data.List.Dedup

/-!
# The direction statistics of `Image.direction_stats`

`direction_stats(image_block)` concatenates the labels of the block row by row, lists its
characters other than `' '` at their first occurrence, counts each of them, and divides each
count times `100` by the number of characters other than `' '`. The source returns the share as
the text `str(share) + ' %'`; the model keeps the number.
-/

namespace Feagi.Vision

namespace Image

/-- `direction_matrix = direction_matrix + str(item)` for each item of each row. -/
def directionMatrixOf (imageBlock : List (List String)) : String :=
  imageBlock.foldl (fun directionMatrix row =>
    row.foldl (fun directionMatrix item => directionMatrix ++ item) directionMatrix) ""

/-- `unique_chars`: `if unique_chars.count(item) == 0 and item != ' '` over `direction_matrix`. -/
def uniqueChars (directionMatrix : String) : List Char :=
  directionMatrix.toList.foldl (fun uniqueChars item =>
    if uniqueChars.count item = 0 ∧ item ≠ ' ' then uniqueChars ++ [item] else uniqueChars) []

/-- `Image.direction_stats`: `[char, count * 100 / float(count_total)]` for each unique
character, over `counts` in order. -/
def directionStats (imageBlock : List (List String)) : Except PyException (List (Char × ℚ)) :=
  let directionMatrix := directionMatrixOf imageBlock
  let counts := (uniqueChars directionMatrix).map fun item =>
    (item, directionMatrix.toList.count item)
  let countTotal := directionMatrix.length - directionMatrix.toList.count ' '
  counts.mapM fun count => (count.1, ·) <$> pyTrueDiv ((count.2 * 100 : Nat) : ℚ) (countTotal : ℚ)

end Image

/-! ## The three loops -/

theorem foldl_append_data (row : List String) :
    ∀ acc : String, (row.foldl (· ++ ·) acc).data = acc.data ++ row.flatMap String.toList := by
  induction row with
  | nil => simp
  | cons item row ih => intro acc; simp [ih]

theorem directionMatrixOf_toList (imageBlock : List (List String)) :
    (Image.directionMatrixOf imageBlock).toList = imageBlock.flatten.flatMap String.toList := by
  suffices ∀ acc : String, (imageBlock.foldl (fun directionMatrix row =>
      row.foldl (· ++ ·) directionMatrix) acc).data =
      acc.data ++ imageBlock.flatten.flatMap String.toList by
    simpa using this ""
  induction imageBlock with
  | nil => simp
  | cons row imageBlock ih => intro acc; simp [ih, foldl_append_data]

theorem foldl_unique_of_ne_space : ∀ (chars seen : List Char),
    chars.foldl (fun uniqueChars item =>
      if uniqueChars.count item = 0 ∧ item ≠ ' ' then uniqueChars ++ [item] else uniqueChars) seen =
    (chars.filter (· ≠ ' ')).foldl
      (fun seen item => if seen.count item = 0 then seen ++ [item] else seen) seen
  | [], _ => rfl
  | item :: chars, seen => by
    by_cases space : item = ' '
    · simp only [List.foldl_cons, space, ne_eq, not_true_eq_false, and_false, if_false,
        List.filter_cons, decide_False]
      exact foldl_unique_of_ne_space chars seen
    · simp only [List.foldl_cons, space, ne_eq, not_false_eq_true, and_true, List.filter_cons,
        decide_True, if_true]
      exact foldl_unique_of_ne_space chars _

theorem uniqueChars_eq (directionMatrix : String) :
    Image.uniqueChars directionMatrix = (directionMatrix.toList.filter (· ≠ ' ')).eraseDups := by
  rw [Image.uniqueChars, foldl_unique_of_ne_space, List.eraseDups, eraseDups_loop_eq_foldl]
  rfl

theorem length_sub_count_space : ∀ chars : List Char,
    chars.length - chars.count ' ' = (chars.filter (· ≠ ' ')).length
  | [] => rfl
  | item :: chars => by
    have bound := List.count_le_length ' ' chars
    have rest := length_sub_count_space chars
    by_cases space : item = ' '
    · subst space
      rw [List.filter_cons_of_neg (by simp), List.length_cons, List.count_cons_self]
      omega
    · rw [List.filter_cons_of_pos (by simpa using space), List.length_cons, List.length_cons,
        List.count_cons_of_ne (Ne.symm space)]
      omega

theorem sum_map_count_eraseDups {α : Type} [DecidableEq α] (items : List α) :
    (items.eraseDups.map fun item => items.count item).sum = items.length := by
  have same : items.eraseDups.Perm items.dedup :=
    (List.perm_ext_iff_of_nodup (nodup_eraseDups items) (List.nodup_dedup items)).mpr
      fun item => by rw [mem_eraseDups, List.mem_dedup]
  rw [(same.map _).sum_eq, List.sum_map_count_dedup_eq_length]

/-! ## What `direction_stats` returns -/

/-- `direction_stats` divides only for a unique character, which makes `count_total` positive. -/
theorem directionStats_eq (imageBlock : List (List String)) :
    let chars := imageBlock.flatten.flatMap String.toList
    let nonSpace := chars.filter (· ≠ ' ')
    Image.directionStats imageBlock =
      .ok (nonSpace.eraseDups.map fun c => (c, (chars.count c * 100 : ℚ) / nonSpace.length)) := by
  intro chars nonSpace
  have length_toList (s : String) : s.length = s.toList.length := rfl
  have total : (Image.directionMatrixOf imageBlock).length -
      (Image.directionMatrixOf imageBlock).toList.count ' ' = nonSpace.length := by
    rw [length_toList, directionMatrixOf_toList, length_sub_count_space]
  simp only [Image.directionStats]
  rw [total]
  simp only [uniqueChars_eq, directionMatrixOf_toList, mapM_map_arg]
  rw [mapM_congr fun c mem => ?_, mapM_pure]
  have positive : 0 < nonSpace.length := List.length_pos_of_mem (mem_eraseDups.mp mem)
  rw [pyTrueDiv, if_neg (Nat.cast_ne_zero.mpr positive.ne'), map_ok, Nat.cast_mul, Nat.cast_ofNat]

theorem eraseDups_eq_nil {α : Type} [DecidableEq α] {items : List α} :
    items.eraseDups = [] ↔ items = [] := by
  simp only [List.eq_nil_iff_forall_not_mem, mem_eraseDups]

theorem directionStats_shares (imageBlock : List (List String)) :
    ∃ stats, Image.directionStats imageBlock = .ok stats ∧
      stats.map (·.1) = ((imageBlock.flatten.flatMap String.toList).filter (· ≠ ' ')).eraseDups ∧
      (∀ entry ∈ stats, entry.2 =
        ((imageBlock.flatten.flatMap String.toList).count entry.1 * 100 : ℚ) /
          ((imageBlock.flatten.flatMap String.toList).filter (· ≠ ' ')).length) ∧
      (stats = [] ↔ (imageBlock.flatten.flatMap String.toList).filter (· ≠ ' ') = []) ∧
      (stats ≠ [] → (stats.map (·.2)).sum = 100) := by
  set chars := imageBlock.flatten.flatMap String.toList
  set nonSpace := chars.filter (· ≠ ' ')
  refine ⟨_, directionStats_eq imageBlock, by rw [List.map_map]; exact List.map_id _, ?_, ?_,
    fun nonempty => ?_⟩
  · simp only [List.mem_map]
    rintro _ ⟨c, -, rfl⟩
    rfl
  · rw [List.map_eq_nil_iff, eraseDups_eq_nil]
  · have positive : (nonSpace.length : ℚ) ≠ 0 := fun zero => nonempty (by
      rw [List.map_eq_nil_iff, eraseDups_eq_nil]
      exact List.length_eq_zero.mp (Nat.cast_eq_zero.mp zero))
    have counts : ∀ c ∈ nonSpace.eraseDups, chars.count c = nonSpace.count c := fun c mem =>
      (List.count_filter (p := fun x => decide (x ≠ ' '))
        (List.mem_filter.mp (mem_eraseDups.mp mem)).2).symm
    calc ((nonSpace.eraseDups.map fun c => (c, (chars.count c * 100 : ℚ) / nonSpace.length)).map
          (·.2)).sum
        = (nonSpace.eraseDups.map fun c => (nonSpace.count c : ℚ)).sum * (100 / nonSpace.length) := by
          rw [List.map_map, ← List.sum_map_mul_right]
          refine congrArg List.sum (List.map_congr_left fun c mem => ?_)
          rw [Function.comp_apply, counts c mem, mul_div_assoc]
      _ = nonSpace.length * (100 / nonSpace.length) := by
          rw [← sum_map_count_eraseDups nonSpace, Nat.cast_list_sum, List.map_map]
          rfl
      _ = 100 := mul_div_cancel₀ 100 positive

end Feagi.Vision
