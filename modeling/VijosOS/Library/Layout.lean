import VijosOS.Library.ByteMemory

/-!
# Fixed layouts

A packet header is a list of fields, each a number of so many bytes in little-endian order. A field
is read back at the sum of the widths before it, whatever follows the header.
-/

namespace VijosOS.Library

/-- Each field with its width in bytes and its value. -/
def layout (fields : List (Nat × Nat)) : List Byte := fields.flatMap fun f => leBytes f.1 f.2

def widths (fields : List (Nat × Nat)) : Nat := (fields.map Prod.fst).sum

theorem leBytes_zero (n : Nat) : leBytes n 0 = List.replicate n 0 := by
  induction n with
  | zero => rfl
  | succ n ih =>
    rw [leBytes, Nat.zero_div, ih]
    rfl

theorem layout_append (fs gs : List (Nat × Nat)) : layout (fs ++ gs) = layout fs ++ layout gs :=
  List.flatMap_append

theorem layout_length (fields : List (Nat × Nat)) : (layout fields).length = widths fields := by
  induction fields with
  | nil => rfl
  | cons f fields ih =>
    have hcons : layout (f :: fields) = leBytes f.1 f.2 ++ layout fields := rfl
    rw [hcons, List.length_append, leBytes_length, ih, widths, widths, List.map_cons, List.sum_cons]

theorem getLe_layout (m : Mem) (rest : List Byte) {fields : List (Nat × Nat)} {k n v a : Nat}
    (hf : fields[k]? = some (n, v)) (ha : widths (fields.take k) = a) :
    getLe (writeBytes m 0 (layout fields ++ rest)) a n = v % 256 ^ n := by
  obtain ⟨hk, hget⟩ := List.getElem?_eq_some_iff.mp hf
  have hsplit : layout fields ++ rest =
      layout (fields.take k) ++ (leBytes n v ++ (layout (fields.drop (k + 1)) ++ rest)) := by
    have hfields : fields = fields.take k ++ ((n, v) :: fields.drop (k + 1)) := by
      rw [← hget, List.getElem_cons_drop, List.take_append_drop]
    have hcons : layout ((n, v) :: fields.drop (k + 1)) = leBytes n v ++ layout (fields.drop (k + 1)) := rfl
    conv_lhs => rw [hfields, layout_append, hcons, List.append_assoc, List.append_assoc]
  have hlength : (layout (fields.take k)).length = a := (layout_length _).trans ha
  have hbytes := bytesAt_writeBytes_inside m 0 (a := a) (n := n)
    (layout (fields.take k) ++ (leBytes n v ++ (layout (fields.drop (k + 1)) ++ rest))) (by
      rw [List.length_append, List.length_append, hlength, leBytes_length]
      omega)
  rw [List.drop_left' hlength, List.take_left' (leBytes_length n v), Nat.zero_add] at hbytes
  rw [hsplit, getLe, hbytes, leNat_leBytes]

end VijosOS.Library
