import ItchExchange.Library.ByteString

/-!
# Records of a fixed layout

Fields of given widths lie one behind another.  A range of a record is one of
its fields; writing a field leaves the others as they are, and a record is what
its fields are.
-/

namespace RecordLayout

open ByteString

variable {α : Type}

/-! ## Ranges of byte strings -/

section Range

variable {offset count place : Nat} {source target : List α}

/-- A range behind the written one is not touched. -/
theorem slice_overwrite_behind (behind : place + source.length ≤ offset)
    (fits : place + source.length ≤ target.length) :
    slice offset count (overwrite place source target) =
      slice offset count target := by
  have written : (target.take place ++ source).length =
      place + source.length := by
    rw [List.length_append, List.length_take]
    omega
  rw [slice, overwrite, List.drop_append, written, List.drop_drop,
    Nat.add_sub_cancel' behind, List.drop_eq_nil_of_le (written.trans_le behind),
    List.nil_append, slice]

/-- A range of a range. -/
theorem slice_slice {inner width : Nat} (inside : inner + width ≤ count) :
    slice inner width (slice offset count target) =
      slice (offset + inner) width target := by
  rw [slice, slice, slice, List.drop_take, List.take_take, List.drop_drop,
    Nat.min_eq_left (by omega)]

/-- Two writes side by side. -/
theorem overwrite_overwrite {first second : List α}
    (fits : offset + first.length + second.length ≤ target.length) :
    overwrite (offset + first.length) second (overwrite offset first target) =
      overwrite offset (first ++ second) target := by
  have written : (target.take offset ++ first).length =
      offset + first.length := by
    rw [List.length_append, List.length_take]
    omega
  have front : (overwrite offset first target).take (offset + first.length) =
      target.take offset ++ first := take_overwrite (by omega)
  have back : (overwrite offset first target).drop
        (offset + first.length + second.length) =
      target.drop (offset + first.length + second.length) := by
    rw [overwrite, List.drop_append, written, List.drop_drop,
      List.drop_eq_nil_of_le (by omega), List.nil_append]
    congr 1
    omega
  rw [overwrite, front, back, overwrite, List.length_append,
    ← Nat.add_assoc, List.append_assoc (target.take offset)]

/-- A write in the middle of a byte string. -/
theorem overwrite_middle (before after : List α)
    (fits : offset + source.length ≤ target.length) :
    overwrite (before.length + offset) source (before ++ target ++ after) =
      before ++ overwrite offset source target ++ after := by
  rw [List.append_assoc, overwrite, overwrite, List.take_length_add_append,
    Nat.add_assoc, List.drop_length_add_append,
    List.take_append_of_le_length (by omega),
    List.drop_append_of_le_length fits]
  simp only [List.append_assoc]

theorem set_eq_overwrite {value : α} (inside : offset < target.length) :
    target.set offset value = overwrite offset [value] target := by
  rw [overwrite, List.append_assoc, List.singleton_append,
    List.set_eq_take_append_cons_drop, if_pos inside]
  rfl

/-- Elements which are written one by one. -/
theorem foldl_set_range (value : Nat → α) {width : Nat}
    (fits : offset + width ≤ target.length) :
    (List.range width).foldl
        (fun written index => written.set (offset + index) (value index))
        target =
      overwrite offset ((List.range width).map value) target := by
  induction width with
  | zero =>
      rw [List.range_zero, overwrite, List.map_nil, List.append_nil,
        List.length_nil, Nat.add_zero, List.take_append_drop]
      rfl
  | succ width induction =>
      have length : ((List.range width).map value).length = width := by
        rw [List.length_map, List.length_range]
      have inside : offset + width <
          (overwrite offset ((List.range width).map value) target).length := by
        rw [length_overwrite (by omega)]
        omega
      have room : offset + ((List.range width).map value).length +
          [value width].length ≤ target.length := by
        rw [length, List.length_singleton]
        omega
      have next := overwrite_overwrite room
      rw [length] at next
      rw [List.range_succ, List.foldl_append, induction (by omega),
        List.foldl_cons, List.foldl_nil, set_eq_overwrite inside, next,
        List.map_append, List.map_singleton]

end Range

/-! ## Layouts -/

/-- Where a field begins. -/
def offset (widths : List Nat) (index : Nat) : Nat :=
  (widths.take index).sum

section Layout

variable {widths : List Nat} {first second index : Nat}
  {record other source : List α}

theorem offset_succ (inside : index < widths.length) :
    offset widths (index + 1) = offset widths index + widths[index] := by
  rw [offset, List.take_succ_eq_append_getElem inside, List.sum_append,
    List.sum_singleton, offset]

theorem offset_le (before : first ≤ second) :
    offset widths first ≤ offset widths second := by
  obtain ⟨more, rfl⟩ := Nat.exists_eq_add_of_le before
  rw [offset, offset, List.take_add, List.sum_append]
  exact Nat.le_add_right _ _

/-- A field ends before a later one begins. -/
theorem offset_add_le (inside : first < widths.length)
    (before : first < second) :
    offset widths first + widths[first] ≤ offset widths second := by
  rw [← offset_succ inside]
  exact offset_le before

theorem offset_add_le_sum (inside : index < widths.length) :
    offset widths index + widths[index] ≤ widths.sum := by
  have whole : offset widths widths.length = widths.sum := by
    rw [offset, List.take_length]
  rw [← whole]
  exact offset_add_le inside inside

/-- A write to one field does not touch another one. -/
theorem slice_overwrite_apart (different : first ≠ second)
    (inside : first < widths.length) (inside' : second < widths.length)
    (size : record.length = widths.sum)
    (width : source.length = widths[second]) :
    slice (offset widths first) widths[first]
        (overwrite (offset widths second) source record) =
      slice (offset widths first) widths[first] record := by
  have fits : offset widths second + source.length ≤ record.length := by
    rw [width, size]
    exact offset_add_le_sum inside'
  rcases Nat.lt_or_gt_of_ne different with before | behind
  · exact slice_overwrite_ahead (offset_add_le inside before) fits
  · refine slice_overwrite_behind ?_ fits
    rw [width]
    exact offset_add_le inside' behind

/-- A record is what its fields are. -/
theorem eq_of_slices (size : record.length = widths.sum)
    (size' : other.length = widths.sum)
    (same : ∀ index (inside : index < widths.length),
      slice (offset widths index) widths[index] record =
        slice (offset widths index) widths[index] other) :
    record = other := by
  induction widths generalizing record other with
  | nil =>
      rw [List.eq_nil_of_length_eq_zero size,
        List.eq_nil_of_length_eq_zero size']
  | cons width widths induction =>
      rw [List.sum_cons] at size size'
      have head : record.take width = other.take width :=
        same 0 (Nat.zero_lt_succ _)
      have tail : record.drop width = other.drop width := by
        refine induction ?_ ?_ fun index inside => ?_
        · rw [List.length_drop]
          omega
        · rw [List.length_drop]
          omega
        · have here := same (index + 1) (Nat.succ_lt_succ inside)
          have place : offset (width :: widths) (index + 1) =
              width + offset widths index := by
            rw [offset, List.take_succ_cons, List.sum_cons, offset]
          rw [place] at here
          simpa only [slice, List.drop_drop, List.getElem_cons_succ] using here
      rw [← List.take_append_drop width record, head, tail,
        List.take_append_drop]

end Layout

end RecordLayout
