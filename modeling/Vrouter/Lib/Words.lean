import Vrouter.Lib.Bits

/-! # Words in byte strings

Bytes and words of sixteen and thirty-two bits at an offset of a byte string, in the order of a
little-endian machine (`le16`, `le32`) and in network order (`be16`, `be32`).  A byte beyond the end
reads as zero, and writing (`set16`, `setBytes`) changes no byte beyond the end.  What is written is read
back, and everything else is as it was. -/

namespace Vrouter.Lib

/-- The byte at an offset. -/
def u8 (b : List Byte) (i : ℕ) : ℕ := (b.getD i 0).val

/-- The word at an offset as a little-endian machine reads it. -/
def le16 (b : List Byte) (i : ℕ) : ℕ := u8 b i + 256 * u8 b (i + 1)

/-- The double word at an offset as a little-endian machine reads it. -/
def le32 (b : List Byte) (i : ℕ) : ℕ := le16 b i + 65536 * le16 b (i + 2)

/-- The word at an offset in network order. -/
def be16 (b : List Byte) (i : ℕ) : ℕ := 256 * u8 b i + u8 b (i + 1)

/-- The double word at an offset in network order. -/
def be32 (b : List Byte) (i : ℕ) : ℕ := 65536 * be16 b i + be16 b (i + 2)

/-- A word with its bytes swapped. -/
def swap16 (w : ℕ) : ℕ := w / 256 % 256 + 256 * (w % 256)

/-- The bytes from `i` to `i + n`. -/
def slice (b : List Byte) (i n : ℕ) : List Byte := (b.drop i).take n

section

variable (b : List Byte) (i : ℕ)

theorem u8_lt : u8 b i < 256 := (b.getD i 0).isLt

theorem le16_lt : le16 b i < 2 ^ 16 := by
  have h0 := u8_lt b i
  have h1 := u8_lt b (i + 1)
  unfold le16
  omega

theorem le32_lt : le32 b i < 2 ^ 32 := by
  have h0 := le16_lt b i
  have h1 := le16_lt b (i + 2)
  unfold le32
  omega

theorem swap16_le16 : swap16 (le16 b i) = be16 b i := by
  have h0 := u8_lt b i
  have h1 := u8_lt b (i + 1)
  unfold swap16 le16 be16
  omega

theorem swap16_lt (w : ℕ) : swap16 w < 2 ^ 16 := by
  unfold swap16
  omega

theorem be16_lt : be16 b i < 2 ^ 16 := swap16_le16 b i ▸ swap16_lt _

end

variable {w j i n : ℕ}

theorem swap16_swap16 (h : w < 2 ^ 16) : swap16 (swap16 w) = w := by
  have high : swap16 w / 256 = w % 256 := by
    unfold swap16
    omega
  have low : swap16 w % 256 = w / 256 := by
    unfold swap16
    omega
  rw [swap16, high, low]
  omega

theorem swap16_injective {v : ℕ} (hv : v < 2 ^ 16) (hw : w < 2 ^ 16) (h : swap16 v = swap16 w) :
    v = w := by
  rw [← swap16_swap16 hv, h, swap16_swap16 hw]

theorem be16_of_u8 {b c : List Byte} (h0 : u8 c j = u8 b j) (h1 : u8 c (j + 1) = u8 b (j + 1)) :
    be16 c j = be16 b j := by
  rw [be16, be16, h0, h1]

theorem u8_drop (b : List Byte) (i k : ℕ) : u8 (b.drop i) k = u8 b (i + k) := by
  unfold u8
  rw [List.getD_eq_getElem?_getD, List.getD_eq_getElem?_getD, List.getElem?_drop]

theorem le16_drop (b : List Byte) (n i : ℕ) : le16 (b.drop n) i = le16 b (n + i) := by
  rw [le16, u8_drop, u8_drop, ← Nat.add_assoc]
  rfl

/-! ### Writing -/

/-- A word is written at an offset, as a little-endian machine does. -/
def set16 (b : List Byte) (i w : ℕ) : List Byte :=
  (b.set i (Fin.ofNat 256 w)).set (i + 1) (Fin.ofNat 256 (w / 256))

/-- The bytes of a double word in network order. -/
def beBytes32 (w : ℕ) : List Byte :=
  [Fin.ofNat 256 (w / 2 ^ 24), Fin.ofNat 256 (w / 2 ^ 16), Fin.ofNat 256 (w / 2 ^ 8),
    Fin.ofNat 256 w]

@[simp] theorem beBytes32_length (w : ℕ) : (beBytes32 w).length = 4 := rfl

/-- Bytes are written from an offset on. -/
def setBytes (b : List Byte) (i : ℕ) : List Byte → List Byte
  | [] => b
  | x :: xs => setBytes (b.set i x) (i + 1) xs

@[simp] theorem set16_length (b : List Byte) (i w : ℕ) : (set16 b i w).length = b.length := by
  simp [set16]

@[simp] theorem setBytes_length : ∀ (b : List Byte) (i : ℕ) (xs : List Byte),
    (setBytes b i xs).length = b.length
  | _, _, [] => rfl
  | b, i, x :: xs => by rw [setBytes, setBytes_length, List.length_set]

variable {b a : List Byte}

theorem u8_set_ne (h : i ≠ j) (x : Byte) : u8 (b.set i x) j = u8 b j := by
  unfold u8
  rw [List.getD_eq_getElem?_getD, List.getElem?_set_ne h, ← List.getD_eq_getElem?_getD]

theorem u8_set_self (h : i < b.length) (x : Byte) : u8 (b.set i x) i = x.val := by
  unfold u8
  rw [List.getD_eq_getElem?_getD, List.getElem?_set_self h, Option.getD_some]

theorem u8_set16_of_ne (h : j ≠ i ∧ j ≠ i + 1) (w : ℕ) : u8 (set16 b i w) j = u8 b j := by
  rw [set16, u8_set_ne h.2.symm, u8_set_ne h.1.symm]

/-- The last of two words written to one place stays. -/
theorem set16_set16 (b : List Byte) (i v w : ℕ) : set16 (set16 b i v) i w = set16 b i w := by
  unfold set16
  rw [List.set_comm _ _ (by omega : i + 1 ≠ i), List.set_set, List.set_set]

/-- Words are written to different places in either order. -/
theorem set16_comm (h : i + 1 < j ∨ j + 1 < i) (b : List Byte) (v w : ℕ) :
    set16 (set16 b i v) j w = set16 (set16 b j w) i v := by
  unfold set16
  rw [List.set_comm _ _ (by omega : i + 1 ≠ j), List.set_comm _ _ (by omega : i ≠ j),
    List.set_comm _ _ (by omega : i + 1 ≠ j + 1), List.set_comm _ _ (by omega : i ≠ j + 1)]

theorem le16_set16_self (h : i + 1 < b.length) (hw : w < 2 ^ 16) :
    le16 (set16 b i w) i = w := by
  rw [le16, set16, u8_set_self (by simpa using h), u8_set_ne (by omega), u8_set_self (by omega),
    Fin.val_ofNat, Fin.val_ofNat]
  omega

theorem be16_set16_self (h : j + 1 < b.length) (hw : w < 2 ^ 16) :
    be16 (set16 b j (swap16 w)) j = w := by
  rw [← swap16_le16, le16_set16_self h (swap16_lt w), swap16_swap16 hw]

theorem le16_set16_of_disjoint (h : j + 1 < i ∨ i + 1 < j) (w : ℕ) :
    le16 (set16 b i w) j = le16 b j := by
  rw [le16, le16, u8_set16_of_ne (by omega), u8_set16_of_ne (by omega)]

theorem be16_set16_of_disjoint (h : j + 1 < i ∨ i + 1 < j) (w : ℕ) :
    be16 (set16 b i w) j = be16 b j :=
  be16_of_u8 (u8_set16_of_ne (by omega) w) (u8_set16_of_ne (by omega) w)

theorem u8_setBytes_of_disjoint : ∀ {xs b : List Byte} {i j : ℕ}, j < i ∨ i + xs.length ≤ j →
    u8 (setBytes b i xs) j = u8 b j
  | [], _, _, _, _ => rfl
  | x :: xs, b, i, j, h => by
    rw [List.length_cons] at h
    rw [setBytes, u8_setBytes_of_disjoint (by omega), u8_set_ne (by omega)]

theorem be32_setBytes_self (h : i + 4 ≤ b.length) (hw : w < 2 ^ 32) :
    be32 (setBytes b i (beBytes32 w)) i = w := by
  simp only [beBytes32, setBytes, be32, be16]
  rw [u8_set_ne (by omega), u8_set_ne (by omega), u8_set_ne (by omega), u8_set_self (by omega),
    u8_set_ne (by omega), u8_set_ne (by omega), u8_set_self (by rw [List.length_set]; omega),
    u8_set_ne (by omega), u8_set_self (by simp only [List.length_set]; omega),
    u8_set_self (by simp only [List.length_set]; omega)]
  simp only [Fin.val_ofNat]
  omega

theorem slice_length {b : List Byte} (h : i + n ≤ b.length) : (slice b i n).length = n := by
  rw [slice, List.length_take, List.length_drop]
  omega

/-- Byte strings with the same bytes from `i` to `i + n` have the same slice there. -/
theorem slice_congr {b c : List Byte} (hlen : b.length = c.length)
    (h : ∀ k < n, u8 b (i + k) = u8 c (i + k)) : slice b i n = slice c i n := by
  apply List.ext_getElem
  · simp only [slice, List.length_take, List.length_drop, hlen]
  · intro k hk hk'
    simp only [slice, List.length_take, List.length_drop] at hk hk'
    have hb : i + k < b.length := by omega
    have hc : i + k < c.length := by omega
    have hbyte := h k (by omega)
    unfold u8 at hbyte
    rw [List.getD_eq_getElem b 0 hb, List.getD_eq_getElem c 0 hc] at hbyte
    simp only [slice, List.getElem_take, List.getElem_drop]
    exact Fin.ext hbyte

/-- Byte strings with the same bytes from `n` on are the same from there on. -/
theorem drop_congr {b c : List Byte} (hlen : b.length = c.length)
    (h : ∀ j, n ≤ j → u8 b j = u8 c j) : b.drop n = c.drop n := by
  have hslice := slice_congr (n := b.length - n) hlen fun k _ => h (n + k) (by omega)
  unfold slice at hslice
  rwa [List.take_of_length_le (by rw [List.length_drop]),
    List.take_of_length_le (by rw [List.length_drop, hlen])] at hslice

theorem slice_setBytes_of_disjoint {xs b : List Byte} (h : j + n ≤ i ∨ i + xs.length ≤ j) :
    slice (setBytes b i xs) j n = slice b j n :=
  slice_congr (setBytes_length _ _ _) fun _ _ => u8_setBytes_of_disjoint (by omega)

/-- What was written is read back. -/
theorem slice_setBytes_self : ∀ {xs b : List Byte} {i : ℕ}, i + xs.length ≤ b.length →
    slice (setBytes b i xs) i xs.length = xs
  | [], b, i, _ => by simp [slice]
  | x :: xs, b, i, h => by
    rw [List.length_cons] at h
    have hle : i + 1 + xs.length ≤ (b.set i x).length := by
      rw [List.length_set]
      omega
    have ih := slice_setBytes_self hle
    have hi : i < (setBytes (b.set i x) (i + 1) xs).length := by
      rw [setBytes_length, List.length_set]
      omega
    have hx : u8 (setBytes (b.set i x) (i + 1) xs) i = x.val := by
      rw [u8_setBytes_of_disjoint (by omega), u8_set_self (by omega)]
    rw [u8, List.getD_eq_getElem _ 0 hi] at hx
    rw [setBytes, slice, List.drop_eq_getElem_cons hi, List.length_cons, List.take_succ_cons,
      Fin.ext hx]
    exact congrArg (x :: ·) ih

theorem slice_setBytes {xs b : List Byte} {i n : ℕ} (hxs : xs.length = n) (hi : i + n ≤ b.length) :
    slice (setBytes b i xs) i n = xs := by
  subst hxs
  exact slice_setBytes_self hi

/-! ### Byte strings that are cut and put together -/

theorem take_set16 (b : List Byte) (i w n : ℕ) : (set16 b i w).take n = set16 (b.take n) i w := by
  rw [set16, set16, List.take_set, List.take_set]

/-- Writing beyond `n` leaves the first `n` bytes. -/
theorem take_set16_of_le (h : n ≤ i) (w : ℕ) : (set16 b i w).take n = b.take n := by
  rw [set16, List.take_set_of_le (by omega), List.take_set_of_le h]

theorem take_setBytes_of_le : ∀ {xs b : List Byte} {i n : ℕ}, n ≤ i →
    (setBytes b i xs).take n = b.take n
  | [], _, _, _, _ => rfl
  | x :: xs, b, i, n, h => by
    rw [setBytes, take_setBytes_of_le (by omega), List.take_set_of_le h]

theorem u8_take (h : i < n) : u8 (b.take n) i = u8 b i := by
  unfold u8
  rw [List.getD_eq_getElem?_getD, List.getElem?_take, if_pos h, ← List.getD_eq_getElem?_getD]

theorem le16_take (h : i + 1 < n) : le16 (b.take n) i = le16 b i := by
  rw [le16, le16, u8_take (by omega), u8_take h]

theorem slice_take {m : ℕ} (h : i + m ≤ n) :
    slice (b.take n) i m = slice b i m := by
  rw [slice, slice, List.drop_take, List.take_take, Nat.min_eq_left (by omega)]

theorem u8_append_left (h : i < a.length) (b : List Byte) :
    u8 (a ++ b) i = u8 a i := by
  rw [u8, u8, List.getD_append _ _ _ _ h]

theorem setBytes_append_left : ∀ {xs a : List Byte} {i : ℕ}, i + xs.length ≤ a.length →
    ∀ b, setBytes (a ++ b) i xs = setBytes a i xs ++ b
  | [], _, _, _, _ => rfl
  | x :: xs, a, i, h, b => by
    rw [List.length_cons] at h
    rw [setBytes, setBytes, List.set_append_left _ _ (by omega),
      setBytes_append_left (by simpa using by omega)]

/-- A word that is written over itself changes nothing. -/
theorem set16_le16_self (b : List Byte) (i : ℕ) : set16 b i (le16 b i) = b := by
  have hbyte : ∀ (c : List Byte) (j : ℕ) (x : Byte), x.val = u8 c j → c.set j x = c := by
    intro c j x hx
    by_cases hj : j < c.length
    · have hxj : x = c.getD j 0 := Fin.ext hx
      rw [hxj, List.getD_eq_getElem c 0 hj, List.set_getElem_self]
    · exact List.set_eq_of_length_le (by omega)
  have h0 := u8_lt b i
  have h1 := u8_lt b (i + 1)
  have hlow : b.set i (Fin.ofNat 256 (le16 b i)) = b := by
    apply hbyte
    rw [Fin.val_ofNat, le16]
    omega
  rw [set16, hlow]
  apply hbyte
  rw [Fin.val_ofNat, le16]
  omega

theorem slice_append_left (h : i + n ≤ a.length) (b : List Byte) :
    slice (a ++ b) i n = slice a i n := by
  rw [slice, slice, List.drop_append_of_le_length (by omega),
    List.take_append_of_le_length (by rw [List.length_drop]; omega)]

/-! ### What a write leaves alone -/

/-- The byte strings differ at most from `lo` to `hi`. -/
structure SameOutside (lo hi : ℕ) (b c : List Byte) : Prop where
  length : c.length = b.length
  bytes : ∀ j, j < lo ∨ hi ≤ j → u8 c j = u8 b j

theorem SameOutside.refl (lo hi : ℕ) (b : List Byte) : SameOutside lo hi b b := ⟨rfl, fun _ _ => rfl⟩

theorem set_sameOutside (b : List Byte) (i : ℕ) (x : Byte) :
    SameOutside i (i + 1) b (b.set i x) :=
  ⟨List.length_set, fun _ h => u8_set_ne (by omega) x⟩

theorem set16_sameOutside (b : List Byte) (i w : ℕ) : SameOutside i (i + 2) b (set16 b i w) :=
  ⟨set16_length b i w, fun _ h => u8_set16_of_ne (by omega) w⟩

theorem setBytes_sameOutside (b : List Byte) (i : ℕ) (xs : List Byte) :
    SameOutside i (i + xs.length) b (setBytes b i xs) :=
  ⟨setBytes_length b i xs, fun _ h => u8_setBytes_of_disjoint h⟩

namespace SameOutside

variable {lo hi lo' hi' : ℕ} {b c d : List Byte}

theorem mono (h : SameOutside lo hi b c) (hlo : lo' ≤ lo) (hhi : hi ≤ hi') :
    SameOutside lo' hi' b c :=
  ⟨h.length, fun j hj => h.bytes j (by omega)⟩

theorem trans (h : SameOutside lo hi b c) (h' : SameOutside lo hi c d) : SameOutside lo hi b d :=
  ⟨h'.length.trans h.length, fun j hj => (h'.bytes j hj).trans (h.bytes j hj)⟩

theorem ite {p : Prop} [Decidable p] (h : p → SameOutside lo hi b c)
    (h' : ¬ p → SameOutside lo hi b d) : SameOutside lo hi b (if p then c else d) := by
  split_ifs with hp
  · exact h hp
  · exact h' hp

theorem le16 (h : SameOutside lo hi b c) (hj : j + 1 < lo ∨ hi ≤ j) : le16 c j = le16 b j := by
  rw [Lib.le16, Lib.le16, h.bytes j (by omega), h.bytes (j + 1) (by omega)]

theorem slice (h : SameOutside lo hi b c) (hj : j + n ≤ lo ∨ hi ≤ j) : slice c j n = slice b j n :=
  slice_congr h.length fun k hk => h.bytes (j + k) (by omega)

end SameOutside

end Vrouter.Lib
