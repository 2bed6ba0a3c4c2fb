import Snapwebsites.HttpStrings.Reread
import Snapwebsites.Links.RoundTrip

/-! # Links that are stored

`create_link()` stops for the name of a link or its branch (`NeverCreated`), and for no key that is not empty: with
empty tables a link without these faults is taken (`stored_of_created`). So a link is refused or read back
exactly where its key is readable or the link is never created. -/

namespace Snapwebsites
namespace Links
open QString HttpStrings
open LinkInfo (Special)

variable {L : Type} {qt : Qt L} {serverName : QString} {deleteThisLink : Tables → LinkInfo → LinkInfo → Except LinksException Tables}
  {info src dst : LinkInfo} {t t' : Tables}

/-- A link that `create_link()` refuses whatever the other one is. -/
def NeverCreated (info : LinkInfo) : Prop := info.name = linkBack ∨ Special info.branch

instance instDecidableNeverCreated (info : LinkInfo) : Decidable (NeverCreated info) := inferInstanceAs (Decidable (_ ∨ _))

theorem Named.ne_nil {name : QString} (h : Named name) : name ≠ [] := by
  rintro rfl
  cases h

/-! ### Refused -/

theorem not_isEmpty {s : QString} (h : s ≠ []) : ¬s.isEmpty = true := fun hs => h (List.isEmpty_iff.mp hs)

theorem column_special {a b : LinkInfo} {r : QString × Tables} (hname : a.name ≠ []) (hbranch : Special a.branch) :
    column qt serverName t a b ≠ .ok r := by
  intro h
  unfold column at h
  split at h
  · obtain ⟨_, hcell, -⟩ := Fallible.map_eq_ok.mp h
    rw [LinkInfo.cellName, if_neg (not_isEmpty hname), if_pos hbranch] at hcell
    cases hcell
  · obtain ⟨_, -, h⟩ := Fallible.bind_eq_ok.mp h
    obtain ⟨_, hlinkKey, -⟩ := Fallible.bind_eq_ok.mp h
    rw [LinkInfo.linkKey, if_neg (not_isEmpty hname), if_pos hbranch] at hlinkKey
    split at hlinkKey <;> cases hlinkKey

theorem createLink_columns (h : createLink qt serverName deleteThisLink t src dst = .ok t') :
    src.name ≠ linkBack ∧ dst.name ≠ linkBack ∧
      ∃ r r', column qt serverName t src dst = .ok r ∧ column qt serverName r.2 dst src = .ok r' := by
  unfold createLink at h
  split at h
  · cases h
  · rename_i hnames
    obtain ⟨hsrc, hdst⟩ := not_or.mp hnames
    split at h
    · cases h
    · obtain ⟨r, hr, h⟩ := Fallible.bind_eq_ok.mp h
      obtain ⟨r', hr', -⟩ := Fallible.bind_eq_ok.mp h
      exact ⟨hsrc, hdst, r, r', hr, hr'⟩

theorem not_stored_of_neverCreated (hname : Named info.name) (h : NeverCreated info) :
    ¬Stored qt serverName deleteThisLink info := by
  rintro ⟨t, other, t', hcreate | hcreate⟩
  · obtain ⟨hback, -, r, r', hr, -⟩ := createLink_columns hcreate
    exact h.elim hback fun hbranch => column_special hname.ne_nil hbranch hr
  · obtain ⟨-, hback, r, r', -, hr'⟩ := createLink_columns hcreate
    exact h.elim hback fun hbranch => column_special hname.ne_nil hbranch hr'

/-! ### Taken -/

/-- What the functions on keys ask of a link. -/
structure Usable (info : LinkInfo) : Prop where
  name : info.name ≠ []
  key : info.key ≠ []
  branch : ¬Special info.branch

theorem Usable.cellName (h : Usable info) (qt : Qt L) (dst : LinkInfo) : ∃ col, info.cellName qt dst = .ok col := by
  rw [LinkInfo.cellName, if_neg (not_isEmpty h.name), if_neg h.branch]
  exact ⟨_, rfl⟩

theorem Usable.cellNameNumbered (h : Usable info) (qt : Qt L) (dst : LinkInfo) (n : QString) : ∃ col, info.cellNameNumbered qt dst n = .ok col := by
  rw [LinkInfo.cellNameNumbered, if_neg (not_isEmpty h.name), if_neg h.branch]
  exact ⟨_, rfl⟩

theorem Usable.rowKey (h : Usable info) (qt : Qt L) : ∃ row, info.rowKey qt = .ok row := by
  rw [LinkInfo.rowKey, if_neg (not_isEmpty h.key), if_neg h.branch]
  exact ⟨_, rfl⟩

theorem Usable.keyWithBranch (h : Usable info) (qt : Qt L) : ∃ key, info.keyWithBranch qt = .ok key := by
  rw [LinkInfo.keyWithBranch, if_neg (not_isEmpty h.key), if_neg h.branch]
  exact ⟨_, rfl⟩

theorem Usable.linkKey (h : Usable info) (qt : Qt L) : ∃ key, info.linkKey qt = .ok key := by
  rw [LinkInfo.linkKey, if_neg (not_isEmpty h.name), if_neg (not_isEmpty h.key), if_neg h.branch]
  exact ⟨_, rfl⟩

/-- A column is found, and the rows are left alone. -/
theorem Usable.column {a b : LinkInfo} (ha : Usable a) (hb : Usable b) (qt : Qt L) (serverName : QString) {c : Nat} (hcounter : t.counter = some c) :
    ∃ col t' c', column qt serverName t a b = .ok (col, t') ∧ t'.branch = t.branch ∧ t'.counter = some c' := by
  unfold Links.column
  split
  · obtain ⟨col, hcol⟩ := ha.cellName qt b
    rw [hcol]
    exact ⟨col, t, c, rfl, rfl, hcounter⟩
  · obtain ⟨key, hkey⟩ := hb.keyWithBranch qt
    obtain ⟨linkKey, hlinkKey⟩ := ha.linkKey qt
    simp only [hkey, hlinkKey, getUniqueNumber, hcounter, bind, Except.bind]
    split
    · obtain ⟨col, hcol⟩ := ha.cellNameNumbered qt b (args qt "%1-%2".toList [serverName, number (((c + 1) % 2 ^ 64 : Nat) : Int)])
      simp only [hcol]
      exact ⟨_, _, _, rfl, rfl, rfl⟩
    · exact ⟨_, t, c, rfl, rfl, hcounter⟩

theorem Usable.replaceExisting {a b : LinkInfo} (ha : Usable a) (hbranch : ∀ row cell, t.branch row cell = none) (col : QString) :
    replaceExisting qt deleteThisLink t a b col = .ok (some t) := by
  unfold Links.replaceExisting
  split
  · obtain ⟨row, hrow⟩ := ha.rowKey qt
    simp only [hrow, bind, Except.bind, hbranch]
    rfl
  · rfl

/-- Empty tables take two links of different names. -/
theorem createLink_ok (qt : Qt L) (serverName : QString)
    (deleteThisLink : Tables → LinkInfo → LinkInfo → Except LinksException Tables) (hsrc : Usable src) (hdst : Usable dst) (hsrcBack : src.name ≠ linkBack) (hdstBack : dst.name ≠ linkBack)
    (hnames : src.name ≠ dst.name) : ∃ t', createLink qt serverName deleteThisLink { counter := some 0 } src dst = .ok t' := by
  obtain ⟨col, t₁, c₁, hcol, hbranch, hcounter⟩ := hsrc.column hdst qt serverName (t := { counter := some 0 }) rfl
  obtain ⟨col', t₂, c₂, hcol', hbranch', -⟩ := hdst.column hsrc qt serverName hcounter
  have hempty : ∀ row cell, t₂.branch row cell = none := fun row cell => by rw [hbranch', hbranch]
  obtain ⟨srcRow, hsrcRow⟩ := hsrc.rowKey qt
  obtain ⟨dstRow, hdstRow⟩ := hdst.rowKey qt
  rw [createLink, if_neg (not_or.mpr ⟨hsrcBack, hdstBack⟩), if_neg fun h => hnames h.2]
  simp only [hcol, hcol', hsrc.replaceExisting hempty, hdst.replaceExisting hempty, hsrcRow, hdstRow, bind, Except.bind]
  exact ⟨_, rfl⟩

/-- The other link of an example: a link of another name. -/
def otherLink (info : LinkInfo) : LinkInfo where
  unique := true
  name := if info.name = "a::b".toList then "a::c".toList else "a::b".toList
  key := "k".toList
  branch := 0

theorem stored_of_created (hname : Named info.name) (hkey : info.key ≠ []) (h : ¬NeverCreated info) :
    Stored qt serverName deleteThisLink info := by
  obtain ⟨hback, hbranch⟩ := not_or.mp h
  have hother : Usable (otherLink info) ∧ (otherLink info).name ≠ linkBack ∧ info.name ≠ (otherLink info).name := by
    have hzero : ¬Special 0 := by decide
    by_cases hab : info.name = "a::b".toList
    · have hlink : (otherLink info).name = "a::c".toList := if_pos hab
      exact ⟨⟨by rw [hlink]; decide, List.cons_ne_nil _ _, hzero⟩, by rw [hlink]; decide, by rw [hlink, hab]; decide⟩
    · have hlink : (otherLink info).name = "a::b".toList := if_neg hab
      exact ⟨⟨by rw [hlink]; decide, List.cons_ne_nil _ _, hzero⟩, by rw [hlink]; decide, by rw [hlink]; exact hab⟩
  obtain ⟨hother, hotherBack, hnames⟩ := hother
  obtain ⟨t', ht'⟩ := createLink_ok qt serverName deleteThisLink ⟨hname.ne_nil, hkey, hbranch⟩
    hother hback hotherBack hnames
  exact ⟨_, _, t', Or.inl ht'⟩

/-- A link with a name that `set_name()` takes and a key is refused or read back exactly where its key is readable
    or it is never created. -/
theorem stored_readable_iff (hname : Named info.name) (hkey : info.key ≠ []) :
    (Stored qt serverName deleteThisLink info → RoundTrips qt info) ↔ Readable qt info.key ∨ NeverCreated info := by
  rw [roundTrips_iff hname]
  constructor
  · intro h
    by_cases hnever : NeverCreated info
    · exact Or.inr hnever
    · exact Or.inl (h (stored_of_created hname hkey hnever))
  · rintro (h | h) hstored
    · exact h
    · exact absurd hstored (not_stored_of_neverCreated hname h)

/-- A link to a page with a query. -/
def queryLink : LinkInfo where
  unique := false
  name := "a::b".toList
  key := "http://example.com/?a=b".toList
  branch := 0

theorem named_queryLink : Named queryLink.name := rfl

theorem stored_readable_page : (Stored wholeNumbers [] (fun t _ _ => .ok t) { queryLink with key := "page".toList } →
    RoundTrips wholeNumbers { queryLink with key := "page".toList }) ↔
      Readable wholeNumbers "page".toList ∨ NeverCreated { queryLink with key := "page".toList } :=
  stored_readable_iff named_queryLink (List.cons_ne_nil _ _)

/-- The link to a page with a query is stored and cannot be read back. -/
theorem queryLink_unreadable :
    Named queryLink.name ∧ queryLink.key ≠ [] ∧ Stored wholeNumbers [] (fun t _ _ => .ok t) queryLink ∧
      ¬RoundTrips wholeNumbers queryLink := by
  refine ⟨named_queryLink, List.cons_ne_nil _ _, stored_of_created named_queryLink (List.cons_ne_nil _ _) (by decide), fun h => ?_⟩
  have hequal : '=' ∈ queryLink.key := by decide
  exact ((roundTrips_iff named_queryLink).mp h).equal hequal

end Links
end Snapwebsites
