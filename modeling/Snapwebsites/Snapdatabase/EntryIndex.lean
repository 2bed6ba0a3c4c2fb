import Snapwebsites.Loadavg.LoadavgFile
import Snapwebsites.Snapdatabase.SchemaList
import Snapwebsites.Snapdatabase.VirtualBuffer

/-! # The entries of an index, as bytes

An `EIDX` block has entries of one size behind its structure: a flag, an OID and a key. `add_entry()` moves the entries with larger
keys out of the way. In `find_entry()` there is still some debug output, which shows 16 bytes of the key; a key that is shorter is
read behind its end. What reads or writes outside of the memory gives nothing. -/

namespace Snapwebsites.Snapdatabase

open Loadavg (littleEndian ofLittleEndian littleEndian_length ofLittleEndian_littleEndian)
open Data (memcpy memcpy_middle)

/-- The count and the size of the entries, as the structure has them, the page behind the structure, and where the last search
ended. -/
structure EntryIndex where
  count : Nat
  size : Nat
  buffer : Bytes
  position : Nat := 0
deriving DecidableEq

inductive EntryIndexError
  | logicError (message : String)
  | notYetImplemented (message : String)
deriving DecidableEq

namespace EntryIndex

/-- `get_page_size()` of the table. -/
def pageSize (b : EntryIndex) : Nat := entryIndexSize + b.buffer.length

def setSize (size : Nat) (b : EntryIndex) : Except EntryIndexError EntryIndex :=
  if size < 1 + 8 + 1 then
    .error (.logicError ("the size of a block_entry_index must be large enough to support a flag, an oid_t, " ++
      "and at the very least one byte from your key."))
  else .ok { b with size }

def setKeySize (size : Nat) (b : EntryIndex) : Except EntryIndexError EntryIndex := b.setSize ((1 + 8 + size) % 2 ^ 32)

/-- A position times the size, on 32 bits. -/
def place (b : EntryIndex) (p : Nat) : Nat := p * b.size % 2 ^ 32

def read (o n : Nat) (b : EntryIndex) : Option Bytes :=
  if o + n ≤ b.buffer.length then some ((b.buffer.drop o).take n) else none

def write (o : Nat) (s : Bytes) (b : EntryIndex) : Option EntryIndex :=
  if o + s.length ≤ b.buffer.length then some { b with buffer := memcpy b.buffer o s } else none

/-- `memmove()` within the page. -/
def move (dest source n : Nat) (b : EntryIndex) : Option EntryIndex := do
  let s ← b.read source n
  b.write dest s

/-! ### Searching -/

/-- The comparison of the entry at `p` with a key. -/
def compareKey (key : Bytes) (length : Nat) (b : EntryIndex) (p : Nat) : Option Ordering :=
  (b.read (b.place p + 1 + 8) length).map fun s => memcmp s key length

/-- The debug output in front of the comparison: 16 bytes of the key in the entry, and of the key. -/
def output (key : Bytes) (b : EntryIndex) (p : Nat) : Option Unit := do
  let _ ← b.read (b.place p) (1 + 8 + 16)
  if key.length < 16 then none else some ()

/-- `bisect`, where a comparison may read outside of the memory. -/
def search (cmp : Nat → Option Ordering) : Nat → Nat → Nat → Nat → Option (Nat × Bool)
  | 0, _, _, position => some (position, false)
  | fuel + 1, i, j, position =>
    if i < j then
      let middle := (j - i) / 2 + i
      match cmp middle with
      | none => none
      | some .lt => search cmp fuel (middle + 1) j (middle + 1)
      | some .gt => search cmp fuel i middle middle
      | some .eq => some (middle, true)
    else some (position, false)

/-- `find_entry()`, with the position that it leaves. -/
def findEntry (key : Bytes) (b : EntryIndex) : Option (Nat × EntryIndex) :=
  if b.count = 0 then some (nullFileAddr, { b with position := 0 })
  else do
    let length := min (b.size - 1 - 8) key.length
    let (position, found) ← search (fun p => b.output key p >>= fun _ => b.compareKey key length p) b.count 0 b.count b.position
    if found then do
      let reference ← b.read (b.place position + 1) 8
      some (ofLittleEndian reference, { b with position })
    else some (nullFileAddr, { b with position })

/-! ### Adding -/

/-- The position for a key, and whether the key is there already. A position that is not negative is taken as it is. -/
def findPosition (key : Bytes) (closePosition : Int) (b : EntryIndex) : Option (Nat × Bool) :=
  if closePosition < 0 then search (b.compareKey key (min (b.size - 1 - 8) key.length)) b.count 0 b.count 0
  else some (closePosition.toNat, false)

def maxCount (b : EntryIndex) : Nat := (b.pageSize - entryIndexSize) / b.size

/-- The entries from `p` on move up. -/
def makeRoom (p : Nat) (b : EntryIndex) : Option EntryIndex :=
  if 0 < b.count - p then b.move (b.place (p + 1)) (b.place p) ((b.count - p) * b.size % 2 ^ 32) else some b

/-- What is behind a shorter key is set to zero. -/
def clearKey (key : Bytes) (p : Nat) (b : EntryIndex) : Option EntryIndex :=
  if key.length < b.size - 1 - 8 then
    b.write (b.place p + 1 + 8 + key.length) (List.replicate (b.size - 1 - 8 - key.length) 0)
  else some b

/-- `add_entry()` from where it has a position and room. -/
def putEntry (key : Bytes) (positionOid : UInt64) (p : Nat) (b : EntryIndex) : Option EntryIndex := do
  let length := b.size - 1 - 8
  let moved ← b.makeRoom p
  let flagged ← moved.write (b.place p) [if key.length ≤ length then 1 else 0]
  let referenced ← flagged.write (b.place p + 1) (littleEndian 8 positionOid.toNat)
  let keyed ← referenced.write (b.place p + 1 + 8) (key.take (min length key.length))
  let cleared ← keyed.clearKey key p
  some { cleared with count := (b.count + 1) % 2 ^ 32 }

/-- `add_entry()`, with what it throws and the block that it leaves. -/
def addEntry (key : Bytes) (positionOid : UInt64) (closePosition : Int) (b : EntryIndex) :
    Option (Except EntryIndexError Unit × EntryIndex) :=
  if b.size < 1 + 8 + 1 then
    some (.error (.logicError "the size of this block_entry_index is not yet defined calling add_entry()."), b)
  else
    match b.findPosition key closePosition with
    | none => none
    | some (_, true) => some (.error (.notYetImplemented "block EIDX non-unique case"), b)
    | some (p, false) =>
      if b.maxCount ≤ b.count then
        some (.error (.notYetImplemented
          (if b.maxCount ≤ p then "block EIDX overflow case 1" else "block EIDX overflow case 2")), b)
      else (b.putEntry key positionOid p).map fun b => (.ok (), b)

/-! ### The entries in the memory -/

end EntryIndex

/-- The bytes of an entry. -/
def Entry.record (e : Entry) : Bytes := (if e.complete then 1 else 0) :: littleEndian 8 e.oid ++ e.key

namespace EntryIndex

/-- The block has these entries, one behind the other. -/
structure Holds (b : EntryIndex) (entries : List Entry) : Prop where
  size_le : 1 + 8 + 1 ≤ b.size
  count : b.count = entries.length
  key_length : ∀ e ∈ entries, 1 + 8 + e.key.length = b.size
  oid_lt : ∀ e ∈ entries, e.oid < 2 ^ 64
  page : b.pageSize ≤ 2 ^ 32
  content : ∃ rest, b.buffer = entries.flatMap Entry.record ++ rest

section Memory
variable {b : EntryIndex} {entries : List Entry} {key : Bytes} {p n : Nat}

theorem record_length (e : Entry) : e.record.length = 1 + 8 + e.key.length := by
  simp only [Entry.record, List.cons_append, List.length_cons, List.length_append, littleEndian_length]
  omega

theorem records_length {size : Nat} : ∀ {entries : List Entry}, (∀ e ∈ entries, 1 + 8 + e.key.length = size) →
    (entries.flatMap Entry.record).length = entries.length * size
  | [], _ => by simp
  | e :: entries, h => by
    obtain ⟨he, h⟩ := List.forall_mem_cons.mp h
    rw [List.flatMap_cons, List.length_append, record_length, he, records_length h, List.length_cons, Nat.succ_mul, Nat.add_comm]

theorem Holds.records_le (h : b.Holds entries) : entries.length * b.size ≤ b.buffer.length := by
  obtain ⟨rest, hrest⟩ := h.content
  rw [hrest, List.length_append, records_length h.key_length]
  exact Nat.le_add_right _ _

/-- The places of a block that fits a page are the products. -/
theorem place_eq (hpage : b.pageSize ≤ 2 ^ 32) (hp : p * b.size ≤ b.buffer.length) : b.place p = p * b.size := by
  have : entryIndexSize = 32 := rfl
  unfold pageSize at hpage
  exact Nat.mod_eq_of_lt (by omega)

theorem Holds.place_eq (h : b.Holds entries) (hp : p ≤ entries.length) : b.place p = p * b.size :=
  EntryIndex.place_eq h.page ((Nat.mul_le_mul_right b.size hp).trans h.records_le)

/-- What is in the memory behind the entries up to `p`. -/
theorem Holds.drop (h : b.Holds entries) (hp : p ≤ entries.length) :
    ∃ rest, b.buffer.drop (p * b.size) = (entries.drop p).flatMap Entry.record ++ rest := by
  obtain ⟨rest, hrest⟩ := h.content
  have hlen : ((entries.take p).flatMap Entry.record).length = p * b.size := by
    rw [records_length fun e he => h.key_length e (List.mem_of_mem_take he), List.length_take_of_le hp]
  refine ⟨rest, ?_⟩
  rw [hrest]
  conv_lhs => rw [← List.take_append_drop p entries, List.flatMap_append, List.append_assoc, ← hlen, List.drop_left]

theorem Holds.read_entry (h : b.Holds entries) {e : Entry} (he : entries[p]? = some e) {o : Nat} (hn : o + n ≤ b.size) :
    b.read (b.place p + o) n = some ((e.record.drop o).take n) := by
  obtain ⟨hp, he'⟩ := List.getElem?_eq_some_iff.mp he
  have hle := (Nat.mul_le_mul_right b.size (Nat.succ_le_of_lt hp)).trans h.records_le
  rw [Nat.succ_mul] at hle
  obtain ⟨rest, hrest⟩ := h.drop hp.le
  have hlen : e.record.length = b.size := by rw [record_length, h.key_length e (he' ▸ List.getElem_mem hp)]
  rw [List.drop_eq_getElem_cons hp, he', List.flatMap_cons, List.append_assoc] at hrest
  rw [h.place_eq hp.le, read, if_pos (by omega), ← List.drop_drop, hrest, List.drop_append_of_le_length (by omega),
    List.take_append_of_le_length (by rw [List.length_drop]; omega)]

theorem Holds.read_oid (h : b.Holds entries) {e : Entry} (he : entries[p]? = some e) :
    ∃ s, b.read (b.place p + 1) 8 = some s ∧ ofLittleEndian s = e.oid := by
  have hsize := h.size_le
  have hoid := h.oid_lt e (List.mem_of_getElem? he)
  refine ⟨_, h.read_entry he (by omega), ?_⟩
  rw [Entry.record, List.cons_append, List.drop_one, List.tail_cons, List.take_left' (littleEndian_length _ _),
    ofLittleEndian_littleEndian]
  exact Nat.mod_eq_of_lt hoid

theorem Holds.read_key (h : b.Holds entries) {e : Entry} (he : entries[p]? = some e) (hn : n ≤ e.key.length) :
    b.read (b.place p + 1 + 8) n = some (e.key.take n) := by
  have hkey := h.key_length e (List.mem_of_getElem? he)
  have hdrop : e.record.drop (1 + 8) = e.key := by
    rw [Entry.record, List.cons_append, Nat.add_comm, List.drop_succ_cons, List.drop_left' (littleEndian_length _ _)]
  rw [Nat.add_assoc, h.read_entry he (by omega), hdrop]

end Memory

/-! ### The search refines that over the entries -/

theorem search_eq {cmp : Nat → Option Ordering} {c : Nat → Ordering} {fuel i j position : Nat}
    (h : ∀ p < j, cmp p = some (c p)) :
    search cmp fuel i j position = some (bisect c fuel i j position) := by
  fun_induction bisect c fuel i j position with
  | case1 => rfl
  | case2 fuel i j position hij middle hcmp ih =>
    have hm : cmp middle = some .lt := hcmp ▸ h middle (by omega)
    rw [search, if_pos hij]
    simp only [hm, middle] at ih ⊢
    exact ih h
  | case3 fuel i j position hij middle hcmp ih =>
    have hm : cmp middle = some .gt := hcmp ▸ h middle (by omega)
    rw [search, if_pos hij]
    simp only [hm, middle] at ih ⊢
    exact ih fun p hp => h p (by omega)
  | case4 fuel i j position hij middle hcmp =>
    have hm : cmp middle = some .eq := hcmp ▸ h middle (by omega)
    rw [search, if_pos hij]
    simp only [hm, middle]
  | case5 fuel i j position hij => rw [search, if_neg hij]

/-- The position before the search does not matter when there is something to search. -/
theorem bisect_start (c : Nat → Ordering) {n : Nat} (hn : n ≠ 0) (p q : Nat) : bisect c n 0 n p = bisect c n 0 n q := by
  obtain ⟨n, rfl⟩ := Nat.exists_eq_succ_of_ne_zero hn
  rw [bisect, bisect, if_pos n.succ_pos, if_pos n.succ_pos]

section Refine
variable {b : EntryIndex} {entries : List Entry} {key : Bytes} {p length : Nat}

theorem getD_key (h : p < entries.length) : (entries.map Entry.key).getD p [] = entries[p].key := by
  simp [List.getD_eq_getElem?_getD, h]

theorem Holds.compareKey_eq (h : b.Holds entries) (hp : p < entries.length) (hlength : length ≤ b.size - 1 - 8) :
    b.compareKey key length p = some (memcmp ((entries.map Entry.key).getD p []) key length) := by
  have hkey := h.key_length _ (List.getElem_mem hp)
  rw [compareKey, h.read_key (List.getElem?_eq_getElem hp) (by omega), getD_key hp, Option.map_some, memcmp, memcmp, List.take_take,
    Nat.min_self]

theorem Holds.output_eq (h : b.Holds entries) (hp : p < entries.length) (hsize : 1 + 8 + 16 ≤ b.size) (hkey : 16 ≤ key.length) :
    b.output key p = some () := by
  have hread := h.read_entry (List.getElem?_eq_getElem hp) (o := 0) (n := 1 + 8 + 16) (by omega)
  rw [Nat.add_zero] at hread
  rw [output, hread]
  exact if_neg (Nat.not_lt.mpr hkey)

/-- With 16 bytes of key to show, a search gives what the search over the entries gives. -/
theorem Holds.findEntry_eq (h : b.Holds entries) (hsize : 1 + 8 + 16 ≤ b.size) (hkey : 16 ≤ key.length) :
    ∃ position, b.findEntry key = some (Snapdatabase.findEntry b.size entries key, { b with position }) ∧
      position = (bisect (fun i => memcmp ((entries.map Entry.key).getD i []) key (min (b.size - 1 - 8) key.length))
        entries.length 0 entries.length 0).1 := by
  refine ⟨_, ?_, rfl⟩
  unfold findEntry Snapdatabase.findEntry
  rw [h.count]
  by_cases hzero : entries.length = 0
  · rw [if_pos hzero, hzero]
    rfl
  · have hcmp : ∀ p < entries.length,
        (b.output key p >>= fun _ => b.compareKey key (min (b.size - 1 - 8) key.length) p) =
          some (memcmp ((entries.map Entry.key).getD p []) key (min (b.size - 1 - 8) key.length)) := fun p hp => by
      rw [h.output_eq hp hsize hkey]
      exact h.compareKey_eq hp (Nat.min_le_left ..)
    rw [if_neg hzero]
    dsimp only
    rw [search_eq hcmp, bisect_start _ hzero b.position 0]
    simp only [Option.bind_eq_bind, Option.bind_some]
    split
    · rename_i hfound
      obtain ⟨-, hp, -⟩ := SchemaList.bisect_found hfound
      obtain ⟨s, hs, hoid⟩ := h.read_oid (List.getElem?_eq_getElem hp)
      rw [hs, Option.bind_some, hoid, List.getD_eq_getElem?_getD, List.getElem?_map, List.getElem?_eq_getElem hp]
      rfl
    · rfl

end Refine

/-! ### The addition refines that to the entries -/

section Put
variable {b b' : EntryIndex} {entries : List Entry} {key a x y t : Bytes} {p o : Nat}

theorem write_middle (hb : b.buffer = a ++ x ++ t) (ho : o = a.length) (hx : x.length = y.length) :
    b.write o y = some { b with buffer := a ++ y ++ t } := by
  rw [write, if_pos (by rw [hb, ho]; simp; omega), hb, ho, memcpy_middle hx]

/-- The entry that is added. -/
def newEntry (size : Nat) (key : Bytes) (positionOid : UInt64) : Entry where
  complete := decide (key.length ≤ size - 1 - 8)
  oid := positionOid.toNat
  key := key.take (min (size - 1 - 8) key.length) ++ List.replicate (size - 1 - 8 - key.length) 0

theorem newEntry_length (hsize : 1 + 8 ≤ b.size) (positionOid : UInt64) :
    1 + 8 + (newEntry b.size key positionOid).key.length = b.size := by
  simp [newEntry]
  omega

/-- The moved entries leave a gap for the new one. -/
theorem Holds.move_eq (h : b.Holds entries) (hp : p ≤ entries.length) (hroom : (entries.length + 1) * b.size ≤ b.buffer.length) :
    ∃ gap rest, gap.length = b.size ∧ rest.length + (entries.length + 1) * b.size = b.buffer.length ∧
      b.makeRoom p =
        some { b with buffer := (entries.take p).flatMap Entry.record ++ gap ++ ((entries.drop p).flatMap Entry.record ++ rest) } := by
  obtain ⟨rest, hrest⟩ := h.content
  have hfront : ((entries.take p).flatMap Entry.record).length = p * b.size := by
    rw [records_length fun e he => h.key_length e (List.mem_of_mem_take he), List.length_take_of_le hp]
  have hback : ((entries.drop p).flatMap Entry.record).length = (entries.length - p) * b.size := by
    rw [records_length fun e he => h.key_length e (List.mem_of_mem_drop he), List.length_drop]
  have hwhole : b.buffer = (entries.take p).flatMap Entry.record ++ ((entries.drop p).flatMap Entry.record ++ rest) := by
    rw [hrest, ← List.append_assoc, ← List.flatMap_append, List.take_append_drop]
  generalize (entries.take p).flatMap Entry.record = x at hfront hwhole ⊢
  generalize (entries.drop p).flatMap Entry.record = y at hback hwhole ⊢
  have hsum : p * b.size + (entries.length - p) * b.size = entries.length * b.size := by rw [← Nat.add_mul, Nat.add_sub_of_le hp]
  have hlen := congrArg List.length hwhole
  simp only [List.length_append] at hlen
  rw [Nat.succ_mul] at hroom
  refine ⟨(y ++ rest).take b.size, rest.drop b.size, by rw [List.length_take, List.length_append]; omega,
    by rw [List.length_drop, Nat.succ_mul]; omega, ?_⟩
  -- what follows the entries in front is a gap, as many bytes as are moved, and the rest
  have hcut : y ++ rest = (y ++ rest).take b.size ++ (((y ++ rest).drop b.size).take y.length ++ rest.drop b.size) := by
    conv_lhs => rw [← List.take_append_drop b.size (y ++ rest), ← List.take_append_drop y.length ((y ++ rest).drop b.size),
      List.drop_drop, Nat.add_comm, ← List.drop_drop, List.drop_left]
  unfold makeRoom
  split
  · have hplace : b.place p = x.length := by rw [h.place_eq hp, hfront]
    have hdest : b.place (p + 1) = (x ++ (y ++ rest).take b.size).length := by
      rw [EntryIndex.place_eq h.page (by rw [Nat.succ_mul]; omega), Nat.succ_mul, List.length_append, hfront, List.length_take,
        List.length_append]
      omega
    have hn : (b.count - p) * b.size % 2 ^ 32 = y.length := by
      rw [hback, ← h.count]
      exact EntryIndex.place_eq h.page (by rw [h.count]; omega)
    have hread : b.read (b.place p) y.length = some y := by
      rw [read, if_pos (by omega), hplace, hwhole, List.drop_left, List.take_left]
    rw [move, hn, hread, Option.bind_eq_bind, Option.bind_some,
      write_middle (x := ((y ++ rest).drop b.size).take y.length) (t := rest.drop b.size) ?_ hdest ?_]
    · simp only [List.append_assoc]
    · rw [hwhole]
      conv_lhs => rw [hcut]
      simp only [List.append_assoc]
    · rw [List.length_take, List.length_drop, List.length_append]
      omega
  · rename_i hnone
    have hzero : entries.length - p = 0 := by
      rw [← h.count]
      omega
    have hy : y = [] := List.eq_nil_of_length_eq_zero (by rw [hback, hzero, Nat.zero_mul])
    subst hy
    rw [List.nil_append, List.nil_append, List.append_assoc, List.take_append_drop, ← List.nil_append rest, ← hwhole]

theorem exists_front {α : Type} {l : List α} {n : Nat} (h : n ≤ l.length) : ∃ a t, l = a ++ t ∧ a.length = n :=
  ⟨l.take n, l.drop n, (List.take_append_drop n l).symm, List.length_take_of_le h⟩

theorem insertIdx_eq {α : Type} (e : α) : ∀ {l : List α} {p : Nat}, p ≤ l.length → l.insertIdx p e = l.take p ++ e :: l.drop p
  | l, 0, _ => rfl
  | [], _ + 1, h => absurd h (by simp)
  | c :: l, p + 1, h => by
    rw [List.insertIdx_succ_cons, insertIdx_eq e (Nat.le_of_succ_le_succ h)]
    rfl

/-- What is written into the gap is the new entry. -/
theorem Holds.putEntry_eq (h : b.Holds entries) (hp : p ≤ entries.length) (hroom : (entries.length + 1) * b.size ≤ b.buffer.length)
    (key : Bytes) (positionOid : UInt64) :
    ∃ rest, rest.length + (entries.length + 1) * b.size = b.buffer.length ∧ b.putEntry key positionOid p = some { b with
      count := (b.count + 1) % 2 ^ 32
      buffer := (entries.insertIdx p (newEntry b.size key positionOid)).flatMap Entry.record ++ rest } := by
  have hsize := h.size_le
  obtain ⟨gap, rest, hgap, hrest, hmove⟩ := h.move_eq hp hroom
  have hplace : b.place p = ((entries.take p).flatMap Entry.record).length := by
    rw [h.place_eq hp, records_length fun e he => h.key_length e (List.mem_of_mem_take he), List.length_take_of_le hp]
  have hinsert : (entries.insertIdx p (newEntry b.size key positionOid)).flatMap Entry.record =
      (entries.take p).flatMap Entry.record ++ (newEntry b.size key positionOid).record ++ (entries.drop p).flatMap Entry.record := by
    rw [insertIdx_eq _ hp]
    simp
  rw [hinsert]
  generalize (entries.take p).flatMap Entry.record = x at hmove hplace ⊢
  generalize (entries.drop p).flatMap Entry.record = y at hmove ⊢
  -- the parts of the gap: the flag, the OID, the key and what is cleared
  obtain ⟨g₁, t₁, rfl, h₁⟩ := exists_front (l := gap) (n := 1) (by omega)
  rw [List.length_append] at hgap
  obtain ⟨g₂, t₂, rfl, h₂⟩ := exists_front (l := t₁) (n := 8) (by omega)
  rw [List.length_append] at hgap
  obtain ⟨g₃, g₄, rfl, h₃⟩ := exists_front (l := t₂) (n := min (b.size - 1 - 8) key.length) (by omega)
  rw [List.length_append] at hgap
  refine ⟨rest, hrest, ?_⟩
  have hkey : (key.take (min (b.size - 1 - 8) key.length)).length = min (b.size - 1 - 8) key.length := by
    rw [List.length_take]
    omega
  have hrecord : (newEntry b.size key positionOid).record = [if key.length ≤ b.size - 1 - 8 then 1 else 0] ++
      littleEndian 8 positionOid.toNat ++ key.take (min (b.size - 1 - 8) key.length) ++
      List.replicate (b.size - 1 - 8 - key.length) 0 := by
    simp [Entry.record, newEntry]
  rw [hrecord]
  simp only [putEntry, hmove, Option.bind_eq_bind, Option.bind_some]
  have hflag : [if key.length ≤ b.size - 1 - 8 then (1 : UInt8) else 0].length = 1 := rfl
  have hoid := littleEndian_length 8 positionOid.toNat
  generalize [if key.length ≤ b.size - 1 - 8 then (1 : UInt8) else 0] = f at hflag ⊢
  generalize littleEndian 8 positionOid.toNat = o at hoid ⊢
  generalize key.take (min (b.size - 1 - 8) key.length) = k at hkey ⊢
  rw [write_middle (a := x) (x := g₁) (t := g₂ ++ g₃ ++ g₄ ++ y ++ rest) (by simp only [List.append_assoc]) hplace
      (h₁.trans hflag.symm),
    Option.bind_some, write_middle (a := x ++ f) (x := g₂) (t := g₃ ++ g₄ ++ y ++ rest) (by simp only [List.append_assoc])
      (by rw [hplace, List.length_append, hflag]) (h₂.trans hoid.symm),
    Option.bind_some, write_middle (a := x ++ f ++ o) (x := g₃) (t := g₄ ++ y ++ rest) (by simp only [List.append_assoc])
      (by rw [hplace, List.length_append, List.length_append, hflag, hoid, Nat.add_assoc]) (h₃.trans hkey.symm),
    Option.bind_some]
  unfold clearKey
  split
  · rename_i hshort
    have hlt : key.length < b.size - 1 - 8 := hshort
    rw [write_middle (a := x ++ f ++ o ++ k) (x := g₄) (t := y ++ rest) (by simp only [List.append_assoc]) ?_ ?_]
    · simp only [Option.bind_some, List.append_assoc]
    · show b.place p + 1 + 8 + key.length = _
      simp only [List.length_append]
      omega
    · show g₄.length = (List.replicate (b.size - 1 - 8 - key.length) (0 : UInt8)).length
      rw [List.length_replicate]
      omega
  · rename_i hlong
    have hle : b.size - 1 - 8 ≤ key.length := Nat.not_lt.mp hlong
    have hnil : g₄ = [] := List.eq_nil_of_length_eq_zero (by omega)
    rw [Nat.sub_eq_zero_of_le hle, hnil]
    simp only [Option.bind_some, List.append_assoc, List.nil_append, List.replicate_zero]

theorem Holds.room_le (h : b.Holds entries) (hroom : ¬ b.maxCount ≤ b.count) :
    (entries.length + 1) * b.size ≤ b.buffer.length := by
  have hlt : entries.length < b.buffer.length / b.size := by
    rw [← h.count]
    simpa [maxCount, pageSize] using hroom
  exact (Nat.le_div_iff_mul_le (by have := h.size_le; omega)).mp hlt

theorem Holds.putEntry_holds (h : b.Holds entries) (hp : p ≤ entries.length) (hroom : ¬ b.maxCount ≤ b.count)
    (key : Bytes) (positionOid : UInt64) :
    ∃ b', b.putEntry key positionOid p = some b' ∧ b'.Holds (entries.insertIdx p (newEntry b.size key positionOid)) ∧
      b'.size = b.size ∧ b'.pageSize = b.pageSize := by
  have hsize := h.size_le
  have hpage := h.page
  have hroom := h.room_le hroom
  have hmem : ∀ e ∈ entries.insertIdx p (newEntry b.size key positionOid),
      e = newEntry b.size key positionOid ∨ e ∈ entries := fun e he =>
    List.mem_cons.mp ((List.perm_insertIdx _ entries hp).subset he)
  have hkeys : ∀ e ∈ entries.insertIdx p (newEntry b.size key positionOid), 1 + 8 + e.key.length = b.size := fun e he => by
    rcases hmem e he with rfl | he
    · exact newEntry_length (by omega) positionOid
    · exact h.key_length e he
  have hlength : (entries.insertIdx p (newEntry b.size key positionOid)).length = entries.length + 1 :=
    (List.perm_insertIdx _ entries hp).length_eq
  obtain ⟨rest, hrest, hput⟩ := h.putEntry_eq hp hroom key positionOid
  have hbuffer : ((entries.insertIdx p (newEntry b.size key positionOid)).flatMap Entry.record ++ rest).length = b.buffer.length := by
    rw [List.length_append, records_length hkeys, hlength, Nat.add_comm, hrest]
  have hcount : (b.count + 1) % 2 ^ 32 = entries.length + 1 := by
    have hle : entries.length + 1 ≤ b.buffer.length := (Nat.le_mul_of_pos_right _ (by omega)).trans hroom
    have : entryIndexSize = 32 := rfl
    unfold pageSize at hpage
    rw [h.count]
    exact Nat.mod_eq_of_lt (by omega)
  have hpage' : entryIndexSize + ((entries.insertIdx p (newEntry b.size key positionOid)).flatMap Entry.record ++ rest).length =
      b.pageSize := by
    rw [hbuffer]
    rfl
  exact ⟨_, hput, ⟨hsize, hcount.trans hlength.symm, hkeys, fun e he => by
    rcases hmem e he with rfl | he
    · exact positionOid.toNat_lt
    · exact h.oid_lt e he, hpage'.trans_le hpage, rest, rfl⟩, rfl, hpage'⟩

theorem Holds.findPosition_eq (h : b.Holds entries) : b.findPosition key (-1) =
    some (bisect (fun i => memcmp ((entries.map Entry.key).getD i []) key (min (b.size - 1 - 8) key.length))
      entries.length 0 entries.length 0) := by
  rw [findPosition, if_pos (by decide), h.count]
  exact search_eq fun p hp => h.compareKey_eq hp (Nat.min_le_left ..)

theorem bisect_le {c : Nat → Ordering} {fuel i j position n : Nat} (hposition : position ≤ n) (hj : j ≤ n) :
    (bisect c fuel i j position).1 ≤ n := by
  fun_induction bisect c fuel i j position with
  | case1 => exact hposition
  | case2 fuel i j position hij middle hcmp ih => exact ih (by omega) hj
  | case3 fuel i j position hij middle hcmp ih => exact ih (by omega) (by omega)
  | case4 fuel i j position hij middle hcmp => exact (by omega : middle ≤ n)
  | case5 => exact hposition

/-- An addition does what the addition to the entries does, and leaves the block where that throws. -/
theorem Holds.addEntry_eq (h : b.Holds entries) (key : Bytes) (positionOid : UInt64) :
    match Snapdatabase.addEntry b.pageSize b.size entries key positionOid.toNat with
    | none => ∃ e, b.addEntry key positionOid (-1) = some (.error e, b)
    | some entries' => ∃ b', b.addEntry key positionOid (-1) = some (.ok (), b') ∧ b'.Holds entries' ∧ b'.size = b.size ∧
        b'.pageSize = b.pageSize := by
  have hsize := h.size_le
  unfold addEntry Snapdatabase.addEntry
  rw [if_neg (by omega), if_neg (by omega), h.findPosition_eq]
  have hle : (bisect (fun i => memcmp ((entries.map Entry.key).getD i []) key (min (b.size - 1 - 8) key.length))
      entries.length 0 entries.length 0).1 ≤ entries.length := bisect_le (Nat.zero_le entries.length) le_rfl
  dsimp only
  generalize bisect _ entries.length 0 entries.length 0 = r at hle ⊢
  obtain ⟨p, found⟩ := r
  cases found with
  | true => exact ⟨_, rfl⟩
  | false =>
    by_cases hfull : b.maxCount ≤ b.count
    · have hroom : entries.length ≥ (b.pageSize - entryIndexSize) / b.size := h.count ▸ hfull
      simp only [Bool.false_or, decide_eq_true hroom, if_pos hfull]
      exact ⟨_, rfl⟩
    · have hroom : ¬ entries.length ≥ (b.pageSize - entryIndexSize) / b.size := h.count ▸ hfull
      obtain ⟨b', hput, hholds⟩ := h.putEntry_holds hle hfull key positionOid
      simp only [Bool.false_or, decide_eq_false hroom, if_neg hfull, hput]
      exact ⟨b', rfl, hholds⟩

end Put

/-! ### The search over sorted keys -/

section Sorted
variable {n : Nat} {cmp : Nat → Ordering} {fuel i j position : Nat}

/-- A search that finds nothing ends between the smaller and the larger entries. -/
theorem bisect_notFound (hlt : ∀ p q, p < q → q < n → cmp q = .lt → cmp p = .lt)
    (hgt : ∀ p q, p < q → q < n → cmp p = .gt → cmp q = .gt) (hi : ∀ q < i, cmp q = .lt)
    (hj : ∀ q, j ≤ q → q < n → cmp q = .gt) (hij : i ≤ j) (hjn : j ≤ n) (hposition : i = j → position = i) (hfuel : j - i ≤ fuel)
    (h : (bisect cmp fuel i j position).2 = false) :
    (∀ q < (bisect cmp fuel i j position).1, cmp q = .lt) ∧
      ∀ q, (bisect cmp fuel i j position).1 ≤ q → q < n → cmp q = .gt := by
  fun_induction bisect cmp fuel i j position with
  | case1 i j position =>
    obtain rfl : i = j := by omega
    rw [hposition rfl]
    exact ⟨hi, hj⟩
  | case2 fuel i j position hlt' middle hcmp ih =>
    have hm : middle = (j - i) / 2 + i := rfl
    refine ih (fun q hq => ?_) hj (by omega) hjn (fun _ => rfl) (by omega) h
    rcases Nat.lt_or_eq_of_le (Nat.le_of_lt_succ hq) with hq | rfl
    · exact hlt q middle hq (by omega) hcmp
    · exact hcmp
  | case3 fuel i j position hlt' middle hcmp ih =>
    have hm : middle = (j - i) / 2 + i := rfl
    refine ih hi (fun q hq hqn => ?_) (by omega) (by omega) (fun heq => heq.symm) (by omega) h
    rcases Nat.lt_or_eq_of_le hq with hq | rfl
    · exact hgt middle q hq hqn hcmp
    · exact hcmp
  | case4 => cases h
  | case5 fuel i j position hlt' =>
    obtain rfl : i = j := by omega
    rw [hposition rfl]
    exact ⟨hi, hj⟩

variable {K : List Bytes} {key : Bytes}

/-- Keys that go up, as `memcmp()` compares them. -/
def Ascending (K : List Bytes) : Prop := K.Pairwise fun x y => compare x y = .lt

/-- The search for a key among keys that go up. -/
def seek (K : List Bytes) (key : Bytes) : Nat × Bool := bisect (fun p => compare (K.getD p []) key) K.length 0 K.length 0

theorem Ascending.lt (h : Ascending K) {p q : Nat} (hpq : p < q) (hq : q < K.length) : compare (K.getD p []) (K.getD q []) = .lt := by
  have hp := hpq.trans hq
  simpa [List.getD_eq_getElem?_getD, hp, hq] using List.pairwise_iff_getElem.mp h p q hp hq hpq

theorem seek_found (h : (seek K key).2 = true) : K[(seek K key).1]? = some key := by
  obtain ⟨-, hp, hcmp⟩ := SchemaList.bisect_found h
  have heq := Std.compare_eq_iff_eq.mp hcmp
  rw [List.getD_eq_getElem?_getD, List.getElem?_eq_getElem hp, Option.getD_some] at heq
  exact (List.getElem?_eq_getElem hp).trans (congrArg some heq)

theorem Ascending.compare_lt (h : Ascending K) {p q : Nat} (hpq : p < q) (hq : q < K.length)
    (hle : compare (K.getD q []) key ≠ .gt) : compare (K.getD p []) key = .lt :=
  Std.TransCmp.lt_of_lt_of_isLE (h.lt hpq hq) (Ordering.isLE_iff_ne_gt.mpr hle)

theorem Ascending.compare_gt (h : Ascending K) {p q : Nat} (hpq : p < q) (hq : q < K.length)
    (hge : compare (K.getD p []) key ≠ .lt) : compare (K.getD q []) key = .gt :=
  by_contra fun hle => hge (h.compare_lt hpq hq hle)

theorem Ascending.seek_iff (h : Ascending K) : (seek K key).2 = true ↔ key ∈ K := by
  refine ⟨fun hfound => List.mem_of_getElem? (seek_found hfound), fun hmem => ?_⟩
  obtain ⟨k, hk, rfl⟩ := List.getElem_of_mem hmem
  exact SchemaList.bisect_complete (fun p q => h.compare_lt) (fun p q => h.compare_gt) le_rfl (Nat.sub_le _ _) (Nat.zero_le k) hk
    (by simp [List.getD_eq_getElem?_getD, hk])

/-- A key that is not there goes behind the smaller ones. -/
theorem Ascending.seek_split (h : Ascending K) (hmem : key ∉ K) :
    (∀ x ∈ K.take (seek K key).1, compare x key = .lt) ∧ ∀ x ∈ K.drop (seek K key).1, compare x key = .gt := by
  have hfound : (seek K key).2 = false := Bool.eq_false_iff.mpr fun hfound => hmem (h.seek_iff.mp hfound)
  obtain ⟨hlt, hgt⟩ := bisect_notFound (fun p q hpq hq hcmp => h.compare_lt hpq hq (by rw [hcmp]; decide))
    (fun p q hpq hq hcmp => h.compare_gt hpq hq (by rw [hcmp]; decide)) (fun q hq => absurd hq (Nat.not_lt_zero q))
    (fun q hq hlt => absurd hq (Nat.not_le.mpr hlt)) (Nat.zero_le _) le_rfl (fun _ => rfl) (Nat.sub_le _ _) hfound
  refine ⟨fun x hx => ?_, fun x hx => ?_⟩
  · obtain ⟨q, hq, rfl⟩ := List.getElem_of_mem hx
    rw [List.length_take] at hq
    have hcmp := hlt q (by exact lt_of_lt_of_le hq (Nat.min_le_left ..))
    rw [List.getD_eq_getElem?_getD, List.getElem?_eq_getElem (by omega)] at hcmp
    rw [List.getElem_take]
    exact hcmp
  · obtain ⟨q, hq, rfl⟩ := List.getElem_of_mem hx
    rw [List.length_drop] at hq
    have hcmp := hgt ((seek K key).1 + q) (Nat.le_add_right _ _) (by omega)
    rw [List.getD_eq_getElem?_getD, List.getElem?_eq_getElem (by omega)] at hcmp
    rw [List.getElem_drop]
    exact hcmp

/-- The position of a key that is not there is the number of smaller ones. -/
theorem Ascending.seek_count (h : Ascending K) (hmem : key ∉ K) :
    (seek K key).1 = (K.filter fun x => compare x key = .lt).length := by
  obtain ⟨hlt, hgt⟩ := h.seek_split hmem
  have hle : (seek K key).1 ≤ K.length := bisect_le (Nat.zero_le _) le_rfl
  conv_rhs => rw [← List.take_append_drop (seek K key).1 K, List.filter_append]
  rw [List.filter_eq_self.mpr fun x hx => decide_eq_true (hlt x hx), List.filter_eq_nil_iff.mpr fun x hx => by simp [hgt x hx],
    List.append_nil, List.length_take_of_le hle]

theorem Ascending.insertIdx (h : Ascending K) (hmem : key ∉ K) : Ascending (K.insertIdx (seek K key).1 key) := by
  obtain ⟨hlt, hgt⟩ := h.seek_split hmem
  have hle : (seek K key).1 ≤ K.length := bisect_le (Nat.zero_le _) le_rfl
  have hsplit : Ascending (K.take (seek K key).1 ++ K.drop (seek K key).1) := by rwa [List.take_append_drop]
  obtain ⟨hfront, hback, hacross⟩ := List.pairwise_append.mp hsplit
  rw [insertIdx_eq key hle]
  refine List.pairwise_append.mpr ⟨hfront, List.pairwise_cons.mpr ⟨fun x hx => ?_, hback⟩, fun x hx y hy => ?_⟩
  · exact Std.OrientedCmp.lt_of_gt (hgt x hx)
  · rcases List.mem_cons.mp hy with rfl | hy
    · exact hlt x hx
    · exact hacross x hx y hy

end Sorted

/-! ### The block as a map -/

/-- `add_entry()` one time after the other; nothing when one of them throws. -/
def addEntries : List (Bytes × UInt64) → EntryIndex → Option EntryIndex
  | [], b => some b
  | (key, positionOid) :: l, b =>
    match b.addEntry key positionOid (-1) with
    | some (.ok (), b) => addEntries l b
    | _ => none

/-- The entries go up, a search finds what was added under a key, or the place for it, and a block that is full stays as it is. -/
structure MapOf (n : Nat) (l : List (Bytes × UInt64)) (b : EntryIndex) : Prop where
  count : b.count = l.length
  sorted : ∀ p q, p < q → q < b.count →
    ∃ x y, b.read (b.place p + 1 + 8) n = some x ∧ b.read (b.place q + 1 + 8) n = some y ∧ memcmp x y n = .lt
  found : ∀ e ∈ l, ∃ position, b.findEntry e.1 = some (e.2.toNat, { b with position })
  absent : ∀ key : Bytes, key.length = n → key ∉ l.map Prod.fst →
    b.findEntry key = some (nullFileAddr, { b with position := (l.filter fun e => memcmp e.1 key n = .lt).length })
  full : b.maxCount ≤ l.length → ∀ (key : Bytes) (positionOid : UInt64), key.length = n → key ∉ l.map Prod.fst →
    ∃ e, b.addEntry key positionOid (-1) = some (.error e, b)

/-- The entry of what was added. -/
def entryOf (e : Bytes × UInt64) : Entry where
  complete := true
  oid := e.2.toNat
  key := e.1

/-- The entries in the memory are what was added, by their keys. -/
structure Represents (n : Nat) (l : List (Bytes × UInt64)) (b : EntryIndex) (entries : List Entry) : Prop where
  holds : b.Holds entries
  size : b.size = 1 + 8 + n
  ascending : Ascending (entries.map Entry.key)
  perm : entries.Perm (l.map entryOf)

section Map
variable {n : Nat} {l : List (Bytes × UInt64)} {b : EntryIndex} {entries : List Entry} {key : Bytes}

theorem Represents.key_length (h : Represents n l b entries) {x : Bytes} (hx : x ∈ entries.map Entry.key) : x.length = n := by
  obtain ⟨e, he, rfl⟩ := List.mem_map.mp hx
  have hkey := h.holds.key_length e he
  have hsize := h.size
  omega

theorem Represents.mem_keys (h : Represents n l b entries) : key ∈ entries.map Entry.key ↔ key ∈ l.map Prod.fst := by
  rw [(h.perm.map Entry.key).mem_iff, List.map_map]
  rfl

/-- Between keys of the size of the block, the comparison is the one of the keys. -/
theorem Represents.bisect_eq (h : Represents n l b entries) (hkey : key.length = n) :
    bisect (fun i => memcmp ((entries.map Entry.key).getD i []) key (min (b.size - 1 - 8) key.length))
        entries.length 0 entries.length 0 =
      seek (entries.map Entry.key) key := by
  have hcmp : ∀ i, memcmp ((entries.map Entry.key).getD i []) key (min (b.size - 1 - 8) key.length) =
      compare ((entries.map Entry.key).getD i []) key := fun i => by
    have hmin : min (b.size - 1 - 8) key.length = n := by
      have := h.size
      omega
    have hlen : ((entries.map Entry.key).getD i []).length ≤ n := by
      rw [List.getD_eq_getElem?_getD]
      rcases hi : (entries.map Entry.key)[i]? with _ | x
      · simp
      · exact (h.key_length (List.mem_of_getElem? hi)).le
    rw [memcmp, hmin, List.take_of_length_le hlen, List.take_of_length_le hkey.le]
  rw [seek, List.length_map]
  simp only [hcmp]

theorem Ascending.nodup {K : List Bytes} (h : Ascending K) : K.Nodup :=
  h.imp fun {x y} hlt heq => by
    rw [Std.compare_eq_iff_eq.mpr heq] at hlt
    cases hlt

theorem Represents.findEntry_eq (h : Represents n l b entries) (hn : 16 ≤ n) (hkey : key.length = n) :
    b.findEntry key = some (if (seek (entries.map Entry.key) key).2 then
        (entries.map Entry.oid).getD (seek (entries.map Entry.key) key).1 nullFileAddr else nullFileAddr,
      { b with position := (seek (entries.map Entry.key) key).1 }) := by
  obtain ⟨position, hfind, hposition⟩ := h.holds.findEntry_eq (by rw [h.size]; omega) (by omega : 16 ≤ key.length)
  rw [hfind, hposition, Snapdatabase.findEntry, h.bisect_eq hkey]

theorem Represents.find_added (h : Represents n l b entries) (hn : 16 ≤ n) {e : Bytes × UInt64} (he : e ∈ l) :
    ∃ position, b.findEntry e.1 = some (e.2.toNat, { b with position }) := by
  have hmem : entryOf e ∈ entries := h.perm.mem_iff.mpr (List.mem_map_of_mem he)
  have hkeys : e.1 ∈ entries.map Entry.key := List.mem_map_of_mem (f := Entry.key) hmem
  have hseek := h.ascending.seek_iff.mpr hkeys
  refine ⟨(seek (entries.map Entry.key) e.1).1, (h.findEntry_eq hn (h.key_length hkeys)).trans ?_⟩
  have hpos := seek_found hseek
  rw [List.getElem?_map, Option.map_eq_some_iff] at hpos
  obtain ⟨e', he', heq⟩ := hpos
  have hsame : e' = entryOf e := List.inj_on_of_nodup_map h.ascending.nodup (List.mem_of_getElem? he') hmem heq
  rw [if_pos hseek, List.getD_eq_getElem?_getD, List.getElem?_map, he', hsame]
  rfl

theorem Represents.find_absent (h : Represents n l b entries) (hn : 16 ≤ n) (hkey : key.length = n) (hmem : key ∉ l.map Prod.fst) :
    b.findEntry key = some (nullFileAddr, { b with position := (l.filter fun e => memcmp e.1 key n = .lt).length }) := by
  have hmem := mt h.mem_keys.mp hmem
  rw [h.findEntry_eq hn hkey, if_neg (mt h.ascending.seek_iff.mp hmem), h.ascending.seek_count hmem]
  have hperm : (entries.map Entry.key).Perm (l.map Prod.fst) := by
    have := h.perm.map Entry.key
    rwa [List.map_map] at this
  have hcount : ((entries.map Entry.key).filter fun x => compare x key = .lt).length =
      (l.filter fun e => memcmp e.1 key n = .lt).length := by
    rw [(hperm.filter _).length_eq, List.filter_map, List.length_map]
    refine congrArg List.length (List.filter_congr fun e he => ?_)
    have hlen : e.1.length = n := h.key_length (h.mem_keys.mpr (List.mem_map_of_mem he))
    simp only [Function.comp_apply, memcmp, List.take_of_length_le hlen.le, List.take_of_length_le hkey.le]
  rw [hcount]

theorem Represents.sorted (h : Represents n l b entries) {p q : Nat} (hpq : p < q) (hq : q < b.count) :
    ∃ x y, b.read (b.place p + 1 + 8) n = some x ∧ b.read (b.place q + 1 + 8) n = some y ∧ memcmp x y n = .lt := by
  rw [h.holds.count] at hq
  have hp := hpq.trans hq
  have hlen : ∀ e ∈ entries, e.key.length = n := fun e he => h.key_length (List.mem_map_of_mem he)
  have hread : ∀ p (hp : p < entries.length), b.read (b.place p + 1 + 8) n = some entries[p].key := fun p hp => by
    have hlen := hlen _ (List.getElem_mem hp)
    rw [h.holds.read_key (List.getElem?_eq_getElem hp) hlen.ge, List.take_of_length_le hlen.le]
  refine ⟨_, _, hread p hp, hread q hq, ?_⟩
  rw [memcmp, List.take_of_length_le (hlen _ (List.getElem_mem hp)).le, List.take_of_length_le (hlen _ (List.getElem_mem hq)).le]
  exact List.pairwise_iff_getElem.mp (List.pairwise_map.mp h.ascending) p q hp hq hpq

/-- A key that is new to a block with room. -/
theorem Represents.add (h : Represents n l b entries) (hkey : key.length = n) (hmem : key ∉ l.map Prod.fst)
    (hroom : l.length < b.maxCount) (positionOid : UInt64) :
    ∃ b' entries', b.addEntry key positionOid (-1) = some (.ok (), b') ∧ Represents n ((key, positionOid) :: l) b' entries' ∧
      b'.pageSize = b.pageSize := by
  have hmem' := mt h.mem_keys.mp hmem
  have hsize := h.size
  have hcount : entries.length = l.length := by rw [h.perm.length_eq, List.length_map]
  have hnew : newEntry b.size key positionOid = entryOf (key, positionOid) := by
    have hlen : b.size - 1 - 8 = key.length := by omega
    simp [newEntry, entryOf, hlen]
  have hadd : Snapdatabase.addEntry b.pageSize b.size entries key positionOid.toNat =
      some (entries.insertIdx (seek (entries.map Entry.key) key).1 (entryOf (key, positionOid))) := by
    have hnotFound := Bool.eq_false_iff.mpr (mt h.ascending.seek_iff.mp hmem')
    have hroom' : ¬ entries.length ≥ (b.pageSize - entryIndexSize) / b.size := by
      rw [hcount]
      exact Nat.not_le.mpr hroom
    rw [Snapdatabase.addEntry, if_neg (Nat.not_lt.mpr h.holds.size_le)]
    dsimp only
    rw [h.bisect_eq hkey, hnotFound, decide_eq_false hroom', ← hnew]
    rfl
  have hle : (seek (entries.map Entry.key) key).1 ≤ entries.length := by
    rw [← List.length_map (f := Entry.key)]
    exact bisect_le (Nat.zero_le _) le_rfl
  have heq := h.holds.addEntry_eq key positionOid
  rw [hadd] at heq
  obtain ⟨b', hb', hholds, hsize', hpage⟩ := heq
  refine ⟨b', _, hb', ⟨hholds, hsize'.trans hsize, ?_, ?_⟩, hpage⟩
  · rw [List.map_insertIdx]
    exact h.ascending.insertIdx hmem'
  · exact (List.perm_insertIdx _ entries hle).trans (h.perm.cons _)

theorem Represents.full (h : Represents n l b entries) (hfull : b.maxCount ≤ l.length) (positionOid : UInt64) :
    ∃ e, b.addEntry key positionOid (-1) = some (.error e, b) := by
  have heq := h.holds.addEntry_eq key positionOid
  have hnone : Snapdatabase.addEntry b.pageSize b.size entries key positionOid.toNat = none := by
    have hroom : entries.length ≥ (b.pageSize - entryIndexSize) / b.size := by
      rw [h.perm.length_eq, List.length_map]
      exact hfull
    rw [Snapdatabase.addEntry, if_neg (Nat.not_lt.mpr h.holds.size_le)]
    dsimp only
    rw [decide_eq_true hroom, Bool.or_true]
    rfl
  rwa [hnone] at heq

theorem Represents.mapOf (h : Represents n l b entries) (hn : 16 ≤ n) : MapOf n l b where
  count := by rw [h.holds.count, h.perm.length_eq, List.length_map]
  sorted _ _ := h.sorted
  found _ := h.find_added hn
  absent _ := h.find_absent hn
  full hfull _ positionOid _ _ := h.full hfull positionOid

end Map

/-! ### Runs from a new block -/

section Runs
variable {n : Nat} {l l' : List (Bytes × UInt64)} {b b' : EntryIndex} {entries : List Entry} {buffer key : Bytes}

theorem Represents.new (hset : EntryIndex.setKeySize n { count := 0, size := 0, buffer } = .ok b) (hn : 0 < n) (hlt : n < 2 ^ 32)
    (hpage : entryIndexSize + buffer.length ≤ 2 ^ 32) :
    Represents n [] b [] ∧ b.pageSize = entryIndexSize + buffer.length := by
  unfold setKeySize setSize at hset
  split at hset
  · cases hset
  · rename_i hsize
    cases hset
    have hmod : (1 + 8 + n) % 2 ^ 32 = 1 + 8 + n := by
      refine Nat.mod_eq_of_lt (by_contra fun hge => hsize ?_)
      rw [Nat.mod_eq_sub_mod (Nat.not_lt.mp hge)]
      refine (Nat.mod_le _ _).trans_lt ?_
      omega
    exact ⟨⟨⟨Nat.not_lt.mp hsize, rfl, by simp, by simp, hpage, buffer, rfl⟩, hmod, List.Pairwise.nil, List.Perm.nil⟩, rfl⟩

/-- Any sequence of additions that fits. -/
theorem Represents.run : ∀ {l l' : List (Bytes × UInt64)} {b : EntryIndex} {entries : List Entry}, Represents n l' b entries →
    (∀ e ∈ l, e.1.length = n) → (l.map Prod.fst).Nodup → (∀ e ∈ l, e.1 ∉ l'.map Prod.fst) →
    l'.length + l.length ≤ b.maxCount →
    ∃ b' entries', addEntries l b = some b' ∧ Represents n (l.reverse ++ l') b' entries'
  | [], l', b, entries, h, _, _, _, _ => ⟨b, entries, rfl, h⟩
  | (key, positionOid) :: l, l', b, entries, h, hlen, hnd, hnew, hroom => by
    obtain ⟨hkey, hlen⟩ := List.forall_mem_cons.mp hlen
    obtain ⟨hkeynew, hnew⟩ := List.forall_mem_cons.mp hnew
    obtain ⟨hnotin, hnd⟩ := List.nodup_cons.mp hnd
    rw [List.length_cons] at hroom
    obtain ⟨b₁, entries₁, hadd, h₁, hpage⟩ := h.add hkey hkeynew (by omega) positionOid
    have hmax : b₁.maxCount = b.maxCount := by rw [maxCount, maxCount, hpage, h₁.size, h.size]
    obtain ⟨b', entries', hrun, h'⟩ := h₁.run hlen hnd (fun e he hmem => by
      rcases List.mem_cons.mp hmem with heq | hmem
      · exact hnotin (heq ▸ List.mem_map_of_mem he)
      · exact hnew e he hmem) (by rw [hmax, List.length_cons]; omega)
    refine ⟨b', entries', ?_, ?_⟩
    · rw [addEntries, hadd]
      exact hrun
    · rw [List.reverse_cons, List.append_assoc]
      exact h'

theorem Represents.of_perm (h : Represents n l b entries) (hperm : l.Perm l') : Represents n l' b entries :=
  ⟨h.holds, h.size, h.ascending, h.perm.trans (hperm.map _)⟩

/-- A shorter key is read behind its end as soon as there is an entry to show. -/
theorem findEntry_of_lt (hcount : b.count ≠ 0) (hkey : key.length < 16) : b.findEntry key = none := by
  have houtput : ∀ p, b.output key p = none := fun p => by
    unfold output
    rcases b.read (b.place p) (1 + 8 + 16) with _ | s
    · rfl
    · exact if_pos hkey
  rw [findEntry, if_neg hcount]
  obtain ⟨n, hn⟩ := Nat.exists_eq_succ_of_ne_zero hcount
  simp [hn, search, houtput]

theorem MapOf.le (h : MapOf n l b) {e : Bytes × UInt64} (he : e ∈ l) (hlen : e.1.length = n) : 16 ≤ n := by
  by_contra hlt
  have hcount : b.count ≠ 0 := by
    rw [h.count]
    exact Nat.ne_of_gt (List.length_pos_of_mem he)
  obtain ⟨position, hfind⟩ := h.found e he
  rw [findEntry_of_lt hcount (by omega)] at hfind
  cases hfind

end Runs

/-- On a page of this size, a block for keys of a size is a map of what is added to it. -/
def ActsAsMap (pageSize n : Nat) : Prop :=
  ∀ (buffer : Bytes) (b : EntryIndex), entryIndexSize + buffer.length = pageSize →
    EntryIndex.setKeySize n { count := 0, size := 0, buffer } = .ok b →
    ∀ l : List (Bytes × UInt64), (l.map Prod.fst).Nodup → (∀ e ∈ l, e.1.length = n) → l.length ≤ b.maxCount →
      ∃ b', addEntries l b = some b' ∧ MapOf n l b'

section Whole
variable {pageSize n : Nat}

theorem ActsAsMap.le (h : ActsAsMap pageSize n) (hpage : 4096 ≤ pageSize) (hn : 0 < n) : 16 ≤ n := by
  by_contra hlt
  have hsize : entryIndexSize = 32 := rfl
  have hlen : entryIndexSize + (List.replicate (pageSize - 32) (0 : UInt8)).length = pageSize := by
    rw [List.length_replicate]
    omega
  have hmod : (1 + 8 + n) % 2 ^ 32 = 1 + 8 + n := Nat.mod_eq_of_lt (by omega)
  have hset : EntryIndex.setKeySize n { count := 0, size := 0, buffer := List.replicate (pageSize - 32) 0 } =
      .ok { count := 0, size := 1 + 8 + n, buffer := List.replicate (pageSize - 32) 0 } := by
    rw [setKeySize, setSize, hmod, if_neg (by omega)]
  obtain ⟨b', -, hmap⟩ := h _ _ hlen hset [(List.replicate n 0, 0)] (List.nodup_singleton _) (by simp) (by
    simp only [maxCount, EntryIndex.pageSize, hlen, List.length_singleton]
    exact (Nat.le_div_iff_mul_le (by omega)).mpr (by omega))
  exact hlt (hmap.le List.mem_cons_self (List.length_replicate ..))

/-- A block is a map for the keys that the debug output does not read behind their end. -/
theorem actsAsMap_iff (hpage : 4096 ≤ pageSize) (hpage' : pageSize ≤ 2 ^ 32) (hn : 0 < n) (hn' : n < 2 ^ 32) :
    ActsAsMap pageSize n ↔ 16 ≤ n := by
  refine ⟨fun h => h.le hpage hn, fun hle buffer b hbuffer hset l hnd hlen hroom => ?_⟩
  obtain ⟨hnew, -⟩ := Represents.new hset hn hn' (hbuffer.trans_le hpage')
  obtain ⟨b', entries', hrun, h'⟩ := hnew.run hlen hnd (by simp) (by simpa using hroom)
  rw [List.append_nil] at h'
  exact ⟨b', hrun, (h'.of_perm (List.reverse_perm l)).mapOf hle⟩

/-- Murmur keys have 16 bytes. -/
theorem actsAsMap_iff_murmur : ActsAsMap 4096 16 ↔ 16 ≤ 16 := actsAsMap_iff (by decide) (by decide) (by decide) (by decide)

/-- A block for keys of 8 bytes is no map. -/
theorem not_actsAsMap :
    ¬ ∀ pageSize n, 4096 ≤ pageSize → pageSize ≤ 2 ^ 32 → 0 < n → n < 2 ^ 32 → ActsAsMap pageSize n := fun h =>
  absurd ((h 4096 8 (by decide) (by decide) (by decide) (by decide)).le (by decide) (by decide)) (by decide)

end Whole

end EntryIndex

end Snapwebsites.Snapdatabase
