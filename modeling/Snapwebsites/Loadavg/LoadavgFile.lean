import Mathlib.Data.List.GetD
import Mathlib.Data.List.OfFn
import Snapwebsites.Lib.Format
import Snapwebsites.Lib.Trace

/-! # The load average file

`loadavg_file`: a list of items, read from a file and written to it as they are in memory. `save()` opens the
file without `O_TRUNC`, so what it does not write over stays behind what it writes (`save_holds`), and `load()`
takes items up to the end of the file. -/

namespace Snapwebsites
namespace Loadavg

/-- `sockaddr_in6`, 28 bytes. -/
abbrev SockaddrIn6 := Fin 28 → UInt8

/-- A `loadavg_item`; the average is a `float`, by its bits. -/
structure LoadavgItem where
  timestamp : Int64 := 0
  address : SockaddrIn6 := fun _ => 0
  avg : UInt32 := 0

/-! ### Items in memory -/

/-- The low `w` bytes of a number, the least significant one first. -/
def littleEndian : Nat → Nat → Bytes
  | 0, _ => []
  | w + 1, n => UInt8.ofNat n :: littleEndian w (n / 256)

def ofLittleEndian (b : Bytes) : Nat := b.foldr (fun x n => x.toNat + 256 * n) 0

/-- `sizeof(loadavg_item)`. -/
def itemSize : Nat := 40

namespace LoadavgItem

/-- The bytes of an item. -/
def image (item : LoadavgItem) : Bytes :=
  littleEndian 8 item.timestamp.toUInt64.toNat ++ List.ofFn item.address ++ littleEndian 4 item.avg.toNat

def ofImage (b : Bytes) : LoadavgItem where
  timestamp := (UInt64.ofNat (ofLittleEndian (b.take 8))).toInt64
  address i := b.getD (8 + i) 0
  avg := UInt32.ofNat (ofLittleEndian (b.drop 36))

end LoadavgItem

/-- The item after `read()` has stored `b` at its start. -/
def readInto (item : LoadavgItem) (b : Bytes) : LoadavgItem := .ofImage (b ++ item.image.drop b.length)

/-! ### Files -/

/-- An open file: the bytes in front of the position and those behind it. -/
abbrev Fd := Bytes × Bytes

/-- `write()` goes over the bytes that are there. -/
def write (fd : Fd) (b : Bytes) : Fd := (fd.1 ++ b, fd.2.drop b.length)

/-- The bytes of `loadavg_magic`. -/
def loadavgMagic : Bytes := [0x4C, 0x41, 0x56, 0x47, 0x01, 0x00]

/-- The loop of `load()`. -/
def readItems : Bytes → List LoadavgItem
  | [] => []
  | x :: b => readInto {} ((x :: b).take itemSize) :: readItems ((x :: b).drop itemSize)
termination_by b => b.length
decreasing_by
  rw [List.length_drop, List.length_cons]
  unfold itemSize
  omega

/-- `load()` in a new object: what it returns, and the items. -/
def load (file : Option Bytes) : Bool × List LoadavgItem :=
  match file with
  | none => (false, [])
  | some b => if b.take loadavgMagic.length = loadavgMagic then (true, readItems (b.drop loadavgMagic.length)) else (false, [])

/-- `save()`, when the file can be opened and written. -/
def save (file : Option Bytes) (items : List LoadavgItem) : Bytes :=
  let fd := items.foldl (fun fd item => write fd item.image) (write ([], file.getD []) loadavgMagic)
  fd.1 ++ fd.2

/-! ### The list -/

section
variable (same : SockaddrIn6 → SockaddrIn6 → Bool) (less : UInt32 → UInt32 → Bool)

/-- `add()`; `same` compares two addresses. -/
def add (newItem : LoadavgItem) : List LoadavgItem → List LoadavgItem
  | [] => [newItem]
  | item :: items =>
    if same item.address newItem.address then { item with timestamp := newItem.timestamp, avg := newItem.avg } :: items
    else item :: add newItem items

/-- `remove_old_entries()`, called at `time`. -/
def removeOldEntries (time howOld : Int) (items : List LoadavgItem) : List LoadavgItem :=
  items.filter fun item => !decide (item.timestamp.toInt < time - howOld)

/-- `find_least_busy()`, which is `std::min_element()`; `less` compares two averages. -/
def findLeastBusy : List LoadavgItem → Option LoadavgItem
  | [] => none
  | item :: items => some (items.foldl (fun smallest item => if less item.avg smallest.avg then item else smallest) item)

end

/-! ### Items are read back -/

theorem littleEndian_length : ∀ w n, (littleEndian w n).length = w
  | 0, _ => rfl
  | w + 1, n => congrArg Nat.succ (littleEndian_length w (n / 256))

theorem ofLittleEndian_littleEndian : ∀ w n, ofLittleEndian (littleEndian w n) = n % 256 ^ w
  | 0, n => (Nat.mod_one n).symm
  | w + 1, n => by
    have ih := ofLittleEndian_littleEndian w (n / 256)
    unfold ofLittleEndian at ih ⊢
    have hmod : n % 256 ^ (w + 1) = n % 256 + 256 * (n / 256 % 256 ^ w) := by rw [Nat.pow_succ', Nat.mod_mul]
    rw [littleEndian, List.foldr_cons, ih, UInt8.toNat_ofNat', hmod]

theorem ofLittleEndian_cons (b : UInt8) (s : Bytes) : ofLittleEndian (b :: s) = b.toNat + 256 * ofLittleEndian s := rfl

theorem littleEndian_ofLittleEndian (s : Bytes) : littleEndian s.length (ofLittleEndian s) = s := by
  induction s with
  | nil => rfl
  | cons b s ih =>
    have hlow : UInt8.ofNat (b.toNat + 256 * ofLittleEndian s) = b := by
      refine UInt8.toNat_inj.mp ?_
      rw [UInt8.toNat_ofNat', Nat.add_mul_mod_self_left]
      exact Nat.mod_eq_of_lt b.toNat_lt
    have hhigh : (b.toNat + 256 * ofLittleEndian s) / 256 = ofLittleEndian s := by
      have hlt := b.toNat_lt
      omega
    rw [List.length_cons, littleEndian, ofLittleEndian_cons, hlow, hhigh, ih]

theorem ofLittleEndian_lt (s : Bytes) : ofLittleEndian s < 256 ^ s.length := by
  induction s with
  | nil => exact Nat.one_pos
  | cons b s ih =>
    have hlt := b.toNat_lt
    rw [ofLittleEndian_cons, List.length_cons, Nat.pow_succ]
    omega

/-- A number in two parts. -/
theorem littleEndian_add (v w n : Nat) : littleEndian (v + w) n = littleEndian v n ++ littleEndian w (n / 256 ^ v) := by
  induction v generalizing n with
  | zero => rw [Nat.zero_add, Nat.pow_zero, Nat.div_one, littleEndian, List.nil_append]
  | succ v ih =>
    rw [Nat.add_right_comm, littleEndian, ih, Nat.div_div_eq_div_mul, ← Nat.pow_succ', littleEndian, List.cons_append]

theorem littleEndian_mod (w n : Nat) : littleEndian w (n % 256 ^ w) = littleEndian w n := by
  have heq := littleEndian_ofLittleEndian (littleEndian w n)
  rwa [ofLittleEndian_littleEndian, littleEndian_length] at heq

theorem take_littleEndian {v w : Nat} (h : v ≤ w) (n : Nat) : (littleEndian w n).take v = littleEndian v n := by
  rw [← Nat.add_sub_cancel' h, littleEndian_add, List.take_left' (littleEndian_length v n)]

namespace LoadavgItem

theorem image_length (item : LoadavgItem) : item.image.length = itemSize := by
  simp only [image, List.length_append, littleEndian_length, List.length_ofFn, itemSize]

theorem ofImage_image (item : LoadavgItem) : ofImage item.image = item := by
  have htime : item.image.take 8 = littleEndian 8 item.timestamp.toUInt64.toNat := by
    rw [image, List.append_assoc, List.take_left' (littleEndian_length 8 _)]
  have havg : item.image.drop 36 = littleEndian 4 item.avg.toNat := by
    rw [image, List.drop_left' (by rw [List.length_append, littleEndian_length, List.length_ofFn])]
  have haddress : ∀ i : Fin 28, item.image.getD (8 + i) 0 = item.address i := by
    intro i
    have hlt : i.val < (List.ofFn item.address).length := by
      rw [List.length_ofFn]
      exact i.isLt
    have hle := Nat.le_add_right 8 i.val
    rw [image, List.append_assoc, List.getD_eq_getElem?_getD, List.getElem?_append_right (by rwa [littleEndian_length]),
      littleEndian_length, Nat.add_sub_cancel_left, List.getElem?_append_left hlt, List.getElem?_eq_getElem hlt, List.getElem_ofFn,
      Option.getD_some]
  have h64 : item.timestamp.toUInt64.toNat % 256 ^ 8 = item.timestamp.toUInt64.toNat := Nat.mod_eq_of_lt item.timestamp.toUInt64.toNat_lt
  have h32 : item.avg.toNat % 256 ^ 4 = item.avg.toNat := Nat.mod_eq_of_lt item.avg.toNat_lt
  rw [ofImage, htime, havg, ofLittleEndian_littleEndian, ofLittleEndian_littleEndian, funext haddress, h64, h32, UInt64.ofNat_toNat,
    UInt32.ofNat_toNat, Int64.toInt64_toUInt64]

end LoadavgItem

/-- The bytes of a list of items. -/
def images (items : List LoadavgItem) : Bytes := items.flatMap LoadavgItem.image

theorem images_length (items : List LoadavgItem) : (images items).length = itemSize * items.length := by
  induction items with
  | nil => rfl
  | cons item items ih =>
    have hcons : images (item :: items) = item.image ++ images items := List.flatMap_cons
    rw [hcons, List.length_append, ih, item.image_length, List.length_cons, Nat.mul_succ, Nat.add_comm]

theorem images_cons (item : LoadavgItem) (items : List LoadavgItem) : images (item :: items) = item.image ++ images items :=
  List.flatMap_cons

theorem images_append (l l' : List LoadavgItem) : images (l ++ l') = images l ++ images l' := List.flatMap_append

theorem drop_images : ∀ (n : Nat) (items : List LoadavgItem), (images items).drop (itemSize * n) = images (items.drop n)
  | 0, _ => rfl
  | n + 1, [] => List.drop_nil
  | n + 1, item :: items => by
    rw [images_cons, List.drop_succ_cons, ← drop_images n items, Nat.mul_succ, Nat.add_comm, ← List.drop_drop,
      List.drop_left' item.image_length]

/-- An item that is read whole. -/
theorem readInto_image (item other : LoadavgItem) : readInto other item.image = item := by
  rw [readInto, List.drop_of_length_le (by rw [other.image_length, item.image_length]), List.append_nil, LoadavgItem.ofImage_image]

theorem readItems_of_ne_nil {b : Bytes} (h : b ≠ []) : readItems b = readInto {} (b.take itemSize) :: readItems (b.drop itemSize) := by
  cases b with
  | nil => exact absurd rfl h
  | cons x b => rw [readItems]

theorem readItems_images : ∀ items : List LoadavgItem, readItems (images items) = items
  | [] => by rw [images, List.flatMap_nil, readItems]
  | item :: items => by
    have hne : item.image ++ images items ≠ [] := fun h => by
      have hlength := item.image_length
      rw [(List.append_eq_nil_iff.mp h).1] at hlength
      cases hlength
    rw [images_cons, readItems_of_ne_nil hne, List.take_left' item.image_length, List.drop_left' item.image_length, readInto_image,
      readItems_images items]

/-! ### What a file holds -/

/-- There is no file yet, or it has been written with these items. -/
def Holds (file : Option Bytes) (items : List LoadavgItem) : Prop :=
  file = none ∧ items = [] ∨ file = some (loadavgMagic ++ images items)

theorem load_holds {file : Option Bytes} {items : List LoadavgItem} (h : Holds file items) : (load file).2 = items := by
  rcases h with ⟨rfl, rfl⟩ | rfl
  · rfl
  · rw [load, List.take_left, if_pos rfl, List.drop_left, readItems_images]

theorem foldl_write (items : List LoadavgItem) : ∀ fd : Fd,
    items.foldl (fun fd item => write fd item.image) fd = write fd (images items) := by
  induction items with
  | nil =>
    intro fd
    rw [List.foldl_nil, write, images, List.flatMap_nil, List.append_nil, List.length_nil, List.drop_zero]
  | cons item items ih =>
    intro fd
    rw [List.foldl_cons, ih, images_cons, write, write, write, List.append_assoc, List.drop_drop, List.length_append]

/-- What is behind the new items stays. -/
theorem save_holds {file : Option Bytes} {items : List LoadavgItem} (h : Holds file items) (items' : List LoadavgItem) :
    Holds (some (save file items')) (items' ++ items.drop items'.length) := by
  have hsave : save file items' = loadavgMagic ++ images items' ++ ((file.getD []).drop loadavgMagic.length).drop (images items').length := by
    rw [save, foldl_write]
    rfl
  refine .inr (congrArg some ?_)
  rw [hsave, images_append, List.append_assoc, images_length]
  rcases h with ⟨rfl, rfl⟩ | rfl
  · rw [Option.getD_none, List.drop_nil, List.drop_nil, List.drop_nil]
    rfl
  · rw [Option.getD_some, List.drop_left, drop_images]

/-! ### Addresses -/

section
variable (same : SockaddrIn6 → SockaddrIn6 → Bool) (less : UInt32 → UInt32 → Bool)

/-- An address occurs once at most. -/
def Distinct (items : List LoadavgItem) : Prop := items.Pairwise fun a b => same a.address b.address = false

variable {same}

theorem mem_add {new item : LoadavgItem} : ∀ {items : List LoadavgItem}, item ∈ add same new items →
    item.address = new.address ∧ (∀ old ∈ items, same old.address new.address = false) ∨ ∃ old ∈ items, item.address = old.address
  | [], h => .inl ⟨by rw [List.mem_singleton.mp h], List.forall_mem_nil _⟩
  | old :: items, h => by
    rw [add] at h
    split_ifs at h with hsame
    · rcases List.mem_cons.mp h with rfl | h
      · exact .inr ⟨old, List.mem_cons_self, rfl⟩
      · exact .inr ⟨item, List.mem_cons_of_mem _ h, rfl⟩
    · rcases List.mem_cons.mp h with rfl | h
      · exact .inr ⟨item, List.mem_cons_self, rfl⟩
      · rcases mem_add h with ⟨heq, hall⟩ | ⟨old', hmem, heq⟩
        · exact .inl ⟨heq, List.forall_mem_cons.mpr ⟨by simpa using hsame, hall⟩⟩
        · exact .inr ⟨old', List.mem_cons_of_mem _ hmem, heq⟩

theorem Distinct.add {new : LoadavgItem} : ∀ {items : List LoadavgItem}, Distinct same items → Distinct same (add same new items)
  | [], _ => List.pairwise_singleton _ _
  | old :: items, h => by
    obtain ⟨hold, hitems⟩ := List.pairwise_cons.mp h
    rw [Loadavg.add]
    split_ifs with hsame
    · exact List.pairwise_cons.mpr ⟨hold, hitems⟩
    · refine List.pairwise_cons.mpr ⟨fun item hitem => ?_, Distinct.add hitems⟩
      rcases mem_add hitem with ⟨heq, -⟩ | ⟨old', hmem, heq⟩
      · rw [heq]
        simpa using hsame
      · rw [heq]
        exact hold old' hmem

theorem Distinct.removeOldEntries {items : List LoadavgItem} (h : Distinct same items) (time howOld : Int) :
    Distinct same (removeOldEntries time howOld items) := List.Pairwise.filter _ h

theorem mem_of_findLeastBusy {items : List LoadavgItem} {item : LoadavgItem} (h : findLeastBusy less items = some item) : item ∈ items := by
  have hfold : ∀ (l : List LoadavgItem) (smallest : LoadavgItem),
      l.foldl (fun smallest item => if less item.avg smallest.avg then item else smallest) smallest ∈ smallest :: l := by
    intro l
    induction l with
    | nil => exact fun _ => List.mem_cons_self
    | cons x l ih =>
      intro smallest
      rw [List.foldl_cons]
      have hmem := ih (if less x.avg smallest.avg then x else smallest)
      split_ifs at hmem ⊢
      · exact List.mem_cons_of_mem _ hmem
      · rcases List.mem_cons.mp hmem with h | h
        · exact List.mem_cons.mpr (.inl h)
        · exact List.mem_cons_of_mem _ (List.mem_cons_of_mem _ h)
  cases items with
  | nil => cases h
  | cons x l =>
    cases h
    exact hfold l x

end

end Loadavg
end Snapwebsites
