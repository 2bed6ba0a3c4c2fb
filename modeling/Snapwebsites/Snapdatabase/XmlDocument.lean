import Snapwebsites.Snapdatabase.XmlTermination

/-! # The files that are accepted

The tokens of a file that is read without an exception, up to the end of the file. The open nodes of a phase say what the tokens behind
it have to be (`Expects`), and each token keeps that, but for three slips: the file may end within the root, the name of an attribute
with an empty value may come again, and the token behind a text that follows the root is not looked at. -/

namespace Snapwebsites.Snapdatabase

open scoped SnapConfig

/-! ### Documents -/

/-- A text of spaces. -/
def XmlToken.IsBlank (t : XmlToken) : Prop := t.type = .text ∧ XmlParser.isEmptyText t.value = true

/-- What may be behind the root. -/
def XmlToken.IsMisc (t : XmlToken) : Prop := t.IsBlank ∨ t.type = .processor

/-- The attributes of a tag, with their names. -/
inductive XmlAttributes : List XmlToken → List Bytes → Prop
  | nil : XmlAttributes [] []
  | cons {name equal value : Bytes} {attributes : List XmlToken} {names : List Bytes} : XmlAttributes attributes names →
    XmlAttributes (⟨.identifier, name⟩ :: ⟨.equal, equal⟩ :: ⟨.string, value⟩ :: attributes) (name :: names)

/-- Texts and elements, whose tags have the same name. -/
inductive XmlContent : List XmlToken → Prop
  | nil : XmlContent []
  | text {value : Bytes} {rest : List XmlToken} : XmlContent rest → XmlContent (⟨.text, value⟩ :: rest)
  | empty {name v : Bytes} {attributes rest : List XmlToken} {names : List Bytes} : XmlAttributes attributes names → names.Nodup →
    XmlContent rest → XmlContent (⟨.openTag, name⟩ :: (attributes ++ ⟨.emptyTag, v⟩ :: rest))
  | element {name v : Bytes} {attributes inner rest : List XmlToken} {names : List Bytes} : XmlAttributes attributes names →
    names.Nodup → XmlContent inner → XmlContent rest →
    XmlContent (⟨.openTag, name⟩ :: (attributes ++ ⟨.endTag, v⟩ :: (inner ++ ⟨.closeTag, name⟩ :: rest)))

/-- The root, and what is behind it. -/
inductive XmlRoot (Behind : XmlToken → Prop) : List XmlToken → Prop
  | mk {name v : Bytes} {attributes inner behind : List XmlToken} {names : List Bytes} : XmlAttributes attributes names → names.Nodup →
    XmlContent inner → (∀ t ∈ behind, Behind t) →
    XmlRoot Behind (⟨.openTag, name⟩ :: (attributes ++ ⟨.endTag, v⟩ :: (inner ++ ⟨.closeTag, name⟩ :: behind)))

/-- At most one processor tag, and the root. -/
inductive XmlDocument (Behind : XmlToken → Prop) : List XmlToken → Prop
  | plain {front root : List XmlToken} : (∀ t ∈ front, t.IsBlank) → XmlRoot Behind root → XmlDocument Behind (front ++ root)
  | processor {front between root : List XmlToken} {v : Bytes} : (∀ t ∈ front, t.IsBlank) → (∀ t ∈ between, t.IsBlank) →
    XmlRoot Behind root → XmlDocument Behind (front ++ ⟨.processor, v⟩ :: (between ++ root))

namespace XmlParser

open Machine (Step Finishes Calls)

/-! ### Slips -/

/-- A token that is let through. -/
def Slip (phase : XmlPhase) (token : XmlToken) : Prop :=
  match phase with
  | .content _ _ => token.type = .eof
  | .value node _ name => node.attributes.find? name = some []
  | .skipEmpty _ => token.type ≠ .text ∧ token.type ≠ .processor ∧ token.type ≠ .eof
  | _ => False

/-- None of the tokens is, from a phase on. -/
def NoSlips (filename : String) : XmlPhase → List XmlToken → Prop
  | _, [] => True
  | phase, token :: tokens => ¬Slip phase token ∧
    match accept filename phase token with
    | .next phase => NoSlips filename phase tokens
    | .done _ => True

/-- The tokens that were read. -/
def tokensOf (reads : List XmlRead) : List XmlToken := reads.filterMap fun read => read.toOption.map Prod.fst

/-- Those in front of the end of the file. -/
def inFile (tokens : List XmlToken) : List XmlToken := tokens.takeWhile fun t => t.type ≠ .eof

/-! ### What has to follow -/

/-- The open elements are closed, and then the file ends. -/
def Closes : List Bytes → List XmlToken → Prop
  | [], tokens => ∀ t ∈ tokens, t.IsMisc
  | name :: names, tokens => ∃ inner rest, XmlContent inner ∧ tokens = inner ++ ⟨.closeTag, name⟩ :: rest ∧ Closes names rest

/-- The rest of a tag, some of whose attributes were read. -/
def InTag (seen : Bytes → Prop) (name : Bytes) (parents : List Bytes) (tokens : List XmlToken) : Prop :=
  ∃ attributes names v rest, XmlAttributes attributes names ∧ names.Nodup ∧ (∀ n ∈ names, ¬seen n) ∧
    (tokens = attributes ++ ⟨.endTag, v⟩ :: rest ∧ Closes (name :: parents) rest ∨
      parents ≠ [] ∧ tokens = attributes ++ ⟨.emptyTag, v⟩ :: rest ∧ Closes parents rest)

/-- The attributes of a node. -/
def Seen (node : XmlNode) (name : Bytes) : Prop := (node.attributes.find? name).isSome = true

def parentNames (parents : List XmlNode) : List Bytes := parents.map XmlNode.name

/-- What the tokens behind a phase have to be. -/
def Expects (phase : XmlPhase) (tokens : List XmlToken) : Prop :=
  match phase with
  | .prolog false => XmlDocument XmlToken.IsMisc tokens
  | .prolog true => ∃ between root, (∀ t ∈ between, t.IsBlank) ∧ XmlRoot XmlToken.IsMisc root ∧ tokens = between ++ root
  | .tag node parents => InTag (Seen node) node.name (parentNames parents) tokens
  | .equal node parents name => ¬Seen node name ∧ ∃ v w rest, tokens = ⟨.equal, v⟩ :: ⟨.string, w⟩ :: rest ∧
    InTag (fun n => n = name ∨ Seen node n) node.name (parentNames parents) rest
  | .value node parents name => ¬Seen node name ∧ ∃ w rest, tokens = ⟨.string, w⟩ :: rest ∧
    InTag (fun n => n = name ∨ Seen node n) node.name (parentNames parents) rest
  | .content node parents => Closes (node.name :: parentNames parents) tokens
  | .epilog _ => ∀ t ∈ tokens, t.IsMisc
  | .skipEmpty _ => ∀ t ∈ tokens, t.IsMisc

/-! ### Steps -/

section
variable {filename : String} {phase phase' : XmlPhase} {node : XmlNode} {parents : List XmlNode} {name : Bytes} {names : List Bytes}
  {seen : Bytes → Prop} {token : XmlToken} {tokens : List XmlToken} {root : XmlNode}

theorem openNode_next (h : openNode name parents = .next phase') :
    ∃ node : XmlNode, node.name = name ∧ phase' = .tag node parents := by
  unfold openNode XmlNode.new at h
  split at h
  · cases h
  · rename_i node hnode
    split at hnode
    · cases hnode
      cases h
      exact ⟨{ name }, rfl, rfl⟩
    · cases hnode

/-- The tag of the root, and what follows it. -/
theorem root_of_inTag (h : InTag seen name [] tokens) : XmlRoot XmlToken.IsMisc (⟨.openTag, name⟩ :: tokens) := by
  obtain ⟨attributes, names, v, rest, hattributes, hnodup, -, ⟨rfl, inner, behind, hinner, rfl, hbehind⟩ | ⟨hparents, -⟩⟩ := h
  · exact .mk hattributes hnodup hinner hbehind
  · exact absurd rfl hparents

/-- The tag of another element is part of the content of its parent. -/
theorem closes_of_inTag {parent : Bytes} (h : InTag seen name (parent :: names) tokens) :
    Closes (parent :: names) (⟨.openTag, name⟩ :: tokens) := by
  obtain ⟨attributes, anames, v, rest, hattributes, hnodup, -, ⟨rfl, inner, behind, hinner, rfl, outer, rest', houter, rfl, hrest⟩ |
    ⟨-, rfl, outer, rest', houter, rfl, hrest⟩⟩ := h
  · have helement : XmlContent (⟨.openTag, name⟩ :: (attributes ++ ⟨.endTag, v⟩ :: (inner ++ ⟨.closeTag, name⟩ :: outer))) :=
      .element hattributes hnodup hinner houter
    refine ⟨_, rest', helement, ?_, hrest⟩
    simp only [List.cons_append, List.append_assoc]
  · have hempty : XmlContent (⟨.openTag, name⟩ :: (attributes ++ ⟨.emptyTag, v⟩ :: outer)) := .empty hattributes hnodup houter
    refine ⟨_, rest', hempty, ?_, hrest⟩
    simp only [List.cons_append, List.append_assoc]

theorem closes_text {value : Bytes} (h : Closes (name :: names) tokens) : Closes (name :: names) (⟨.text, value⟩ :: tokens) := by
  obtain ⟨inner, rest, hinner, rfl, hrest⟩ := h
  exact ⟨_, rest, .text hinner, rfl, hrest⟩

theorem closes_close (h : Closes names tokens) : Closes (name :: names) (⟨.closeTag, name⟩ :: tokens) := ⟨[], tokens, .nil, rfl, h⟩

/-- One more attribute. -/
theorem inTag_attribute {equal value : Bytes} (hname : ¬seen name) {element : Bytes}
    (h : InTag (fun n => n = name ∨ seen n) element names tokens) :
    InTag seen element names (⟨.identifier, name⟩ :: ⟨.equal, equal⟩ :: ⟨.string, value⟩ :: tokens) := by
  obtain ⟨attributes, anames, v, rest, hattributes, hnodup, hseen, htokens⟩ := h
  have hnot : name ∉ anames := fun hmem => hseen name hmem (.inl rfl)
  have hcons : XmlAttributes (⟨.identifier, name⟩ :: ⟨.equal, equal⟩ :: ⟨.string, value⟩ :: attributes) (name :: anames) :=
    .cons hattributes
  refine ⟨_, name :: anames, v, rest, hcons, List.nodup_cons.mpr ⟨hnot, hnodup⟩, fun n hn => ?_, ?_⟩
  · rcases List.mem_cons.mp hn with rfl | hn
    · exact hname
    · exact fun h => hseen n hn (.inr h)
  · rcases htokens with ⟨rfl, hrest⟩ | ⟨hparents, rfl, hrest⟩
    · exact .inl ⟨rfl, hrest⟩
    · exact .inr ⟨hparents, rfl, hrest⟩

theorem expects_prolog {processor : Bool} (h : acceptProlog filename processor token = .next phase') (hrest : Expects phase' tokens) :
    Expects (.prolog processor) (token :: tokens) := by
  obtain ⟨type, value⟩ := token
  cases type with
  | text =>
    simp only [acceptProlog] at h
    split at h
    · rename_i hblank
      cases h
      have hfirst : ∀ front : List XmlToken, (∀ t ∈ front, t.IsBlank) → ∀ t ∈ (⟨.text, value⟩ : XmlToken) :: front, t.IsBlank :=
        fun front hfront => List.forall_mem_cons.mpr ⟨⟨rfl, hblank⟩, hfront⟩
      cases processor with
      | false =>
        rcases hrest with ⟨hfront, hroot⟩ | ⟨hfront, hbetween, hroot⟩
        · exact .plain (hfirst _ hfront) hroot
        · exact .processor (hfirst _ hfront) hbetween hroot
      | true =>
        obtain ⟨between, root, hbetween, hroot, rfl⟩ := hrest
        exact ⟨_, root, hfirst _ hbetween, hroot, rfl⟩
    · cases h
  | processor =>
    cases processor with
    | false =>
      cases h
      obtain ⟨between, root, hbetween, hroot, rfl⟩ := hrest
      exact @XmlDocument.processor _ [] _ _ _ (List.forall_mem_nil _) hbetween hroot
    | true => cases h
  | openTag =>
    obtain ⟨node, hname, rfl⟩ := openNode_next h
    have hroot := root_of_inTag hrest
    rw [hname] at hroot
    cases processor with
    | false => exact @XmlDocument.plain _ [] _ (List.forall_mem_nil _) hroot
    | true => exact ⟨[], _, List.forall_mem_nil _, hroot, rfl⟩
  | _ => cases h

theorem expects_tag (h : acceptTag filename node parents token = .next phase') (hrest : Expects phase' tokens) :
    Expects (.tag node parents) (token :: tokens) := by
  obtain ⟨type, value⟩ := token
  cases type with
  | endTag =>
    cases h
    exact ⟨[], [], value, tokens, .nil, List.nodup_nil, nofun, .inl ⟨rfl, hrest⟩⟩
  | emptyTag =>
    cases parents with
    | nil => cases h
    | cons parent parents =>
      cases h
      exact ⟨[], [], value, tokens, .nil, List.nodup_nil, nofun, .inr ⟨List.cons_ne_nil _ _, rfl, hrest⟩⟩
  | identifier =>
    cases h
    obtain ⟨hnot, v, w, rest, rfl, hrest⟩ := hrest
    exact inTag_attribute hnot hrest
  | _ => cases h

theorem expects_equal (h : acceptEqual node parents name token = .next phase') (hrest : Expects phase' tokens) :
    Expects (.equal node parents name) (token :: tokens) := by
  obtain ⟨type, value⟩ := token
  cases type with
  | equal =>
    cases h
    obtain ⟨hnot, w, rest, rfl, hrest⟩ := hrest
    exact ⟨hnot, value, w, rest, rfl, hrest⟩
  | _ => cases h

theorem expects_value (h : acceptValue node parents name token = .next phase') (hslip : node.attributes.find? name ≠ some [])
    (hrest : Expects phase' tokens) : Expects (.value node parents name) (token :: tokens) := by
  obtain ⟨type, value⟩ := token
  cases type with
  | string =>
    simp only [acceptValue] at h
    split at h
    · cases h
    · rename_i hempty
      unfold XmlNode.setAttribute at h
      split at h
      · cases h
      · rename_i node' hnode
        split at hnode
        · cases hnode
          cases h
          have hnone : node.attributes.find? name = none := by
            unfold XmlNode.attributeOf at hempty
            cases hfind : node.attributes.find? name with
            | none => rfl
            | some b =>
              rw [hfind] at hempty hslip
              exact absurd (congrArg some (not_not.mp hempty)) hslip
          refine ⟨fun hseen => ?_, value, tokens, rfl, ?_⟩
          · rw [Seen, hnone] at hseen
            cases hseen
          · have hseen : (Seen { node with attributes := node.attributes.insert name value }) = fun n => n = name ∨ Seen node n := by
              funext n
              rw [Seen, SortedMap.find?_insert]
              by_cases hn : n = name
              · rw [if_pos hn]
                exact propext (iff_of_true rfl (.inl hn))
              · rw [if_neg hn]
                exact propext (or_iff_right hn).symm
            rw [← hseen]
            exact hrest
        · cases hnode
  | _ => cases h

theorem expects_content (h : acceptContent node parents token = .next phase') (hrest : Expects phase' tokens) :
    Expects (.content node parents) (token :: tokens) := by
  obtain ⟨type, value⟩ := token
  cases type with
  | openTag =>
    obtain ⟨child, hname, rfl⟩ := openNode_next h
    have hcloses := closes_of_inTag hrest
    rwa [hname] at hcloses
  | closeTag =>
    simp only [acceptContent] at h
    split at h
    · cases h
    · rename_i hname
      obtain rfl := not_not.mp hname
      cases parents with
      | nil =>
        cases h
        exact closes_close hrest
      | cons parent parents =>
        cases h
        exact closes_close hrest
  | text =>
    cases h
    exact closes_text hrest
  | _ => cases h

theorem expects_skipText {value : Bytes} (h : skipEmptyText filename root value = .next phase') (hrest : Expects phase' tokens) :
    ∀ t ∈ (⟨.text, value⟩ : XmlToken) :: tokens, t.IsMisc := by
  unfold skipEmptyText at h
  split at h
  · rename_i hblank
    cases h
    exact List.forall_mem_cons.mpr ⟨.inl ⟨rfl, hblank⟩, hrest⟩
  · cases h

theorem expects_epilog (h : acceptEpilog filename root token = .next phase') (hrest : Expects phase' tokens) :
    Expects (.epilog root) (token :: tokens) := by
  obtain ⟨type, value⟩ := token
  cases type with
  | text => exact expects_skipText h hrest
  | processor =>
    cases h
    exact List.forall_mem_cons.mpr ⟨.inr rfl, hrest⟩
  | _ => cases h

theorem expects_skipEmpty (h : acceptSkipEmpty filename root token = .next phase') (hslip : ¬Slip (.skipEmpty root) token)
    (htype : token.type ≠ .eof) (hrest : Expects phase' tokens) : Expects (.skipEmpty root) (token :: tokens) := by
  obtain ⟨type, value⟩ := token
  cases type with
  | text => exact expects_skipText h hrest
  | processor =>
    cases h
    exact List.forall_mem_cons.mpr ⟨.inr rfl, hrest⟩
  | eof => exact absurd rfl htype
  | _ => exact absurd ⟨nofun, nofun, nofun⟩ hslip

/-- A token that is accepted, and is no slip, comes in front of what is expected behind it. -/
theorem expects_next (h : accept filename phase token = .next phase') (hslip : ¬Slip phase token) (htype : token.type ≠ .eof)
    (hrest : Expects phase' tokens) : Expects phase (token :: tokens) := by
  cases phase with
  | prolog processor => exact expects_prolog h hrest
  | tag node parents => exact expects_tag h hrest
  | equal node parents name => exact expects_equal h hrest
  | value node parents name => exact expects_value h hslip hrest
  | content node parents => exact expects_content h hrest
  | epilog root => exact expects_epilog h hrest
  | skipEmpty root => exact expects_skipEmpty h hslip htype hrest

theorem openNode_done : openNode name parents ≠ .done (.ok root) := by
  unfold openNode
  split <;> nofun

theorem skipEmptyText_done {value : Bytes} {node : XmlNode} : skipEmptyText filename node value ≠ .done (.ok root) := by
  unfold skipEmptyText
  split <;> nofun

/-- But for a slip, only the end of the file behind the root ends the reading. -/
theorem accept_done (h : accept filename phase token = .done (.ok root)) (hslip : ¬Slip phase token) :
    token.type = .eof ∧ phase = .epilog root := by
  obtain ⟨type, value⟩ := token
  cases phase with
  | prolog processor =>
    cases type with
    | openTag => exact absurd h openNode_done
    | text =>
      simp only [accept, acceptProlog] at h
      split at h <;> cases h
    | processor =>
      simp only [accept, acceptProlog] at h
      split at h <;> cases h
    | _ => cases h
  | tag node parents =>
    cases type with
    | emptyTag => cases parents <;> cases h
    | _ => cases h
  | equal node parents name => cases type <;> cases h
  | value node parents name =>
    cases type with
    | string =>
      simp only [accept, acceptValue] at h
      split at h
      · cases h
      · split at h <;> cases h
    | _ => cases h
  | content node parents =>
    cases type with
    | eof => exact absurd rfl hslip
    | openTag => exact absurd h openNode_done
    | closeTag =>
      simp only [accept, acceptContent] at h
      split at h
      · cases h
      · split at h <;> cases h
    | _ => cases h
  | epilog node =>
    cases type with
    | eof =>
      cases h
      exact ⟨rfl, rfl⟩
    | text => exact absurd h skipEmptyText_done
    | _ => cases h
  | skipEmpty node =>
    cases type with
    | text => exact absurd h skipEmptyText_done
    | _ => cases h

theorem afterToken_done {read : XmlRead} (h : afterToken filename phase read = .done (.ok root)) : ∃ token input,
    read = .ok (token, input) ∧ accept filename phase token = .done (.ok root) := by
  cases read with
  | error e => cases h
  | ok read =>
    obtain ⟨token, input⟩ := read
    rw [afterToken] at h
    cases haccept : accept filename phase token with
    | next phase' =>
      rw [haccept] at h
      cases h
    | done r =>
      rw [haccept] at h
      cases h
      exact ⟨token, input, rfl, haccept⟩

theorem inFile_of_eof (h : token.type = .eof) : inFile (token :: tokens) = [] := List.takeWhile_cons_of_neg (by simpa using h)

theorem inFile_of_ne (h : token.type ≠ .eof) : inFile (token :: tokens) = token :: inFile tokens :=
  List.takeWhile_cons_of_pos (decide_eq_true h)

/-- The tokens of a run that ends without an exception are those that are expected. -/
theorem expects_of_calls {toU8string : UInt32 → Option Bytes} {c : XmlPhase × XmlCall} {reads : List XmlRead}
    {r : Except XmlError XmlNode} (h : Calls (tokenStep toU8string) (afterToken filename) c reads r) (hr : r = .ok root)
    (hslips : NoSlips filename c.1 (tokensOf reads)) : Expects c.1 (inFile (tokensOf reads)) := by
  induction h with
  | @last c read r hread hafter =>
    subst hr
    obtain ⟨token, input, rfl, haccept⟩ := afterToken_done hafter
    obtain ⟨heof, hphase⟩ := accept_done haccept hslips.1
    rw [hphase]
    have hnil : inFile (tokensOf [.ok (token, input)]) = [] := inFile_of_eof heof
    rw [hnil]
    exact nofun
  | @more c c' read reads r hread hafter _ ih =>
    obtain ⟨token, input, rfl, haccept, -⟩ := afterToken_next hafter
    have htokens : tokensOf (.ok (token, input) :: reads) = token :: tokensOf reads := rfl
    rw [htokens] at hslips ⊢
    obtain ⟨hslip, hrest⟩ := hslips
    rw [haccept] at hrest
    by_cases htype : token.type = .eof
    · obtain ⟨node, hphase, -⟩ := accept_eof htype haccept
      rw [hphase, inFile_of_eof htype]
      exact nofun
    · rw [inFile_of_ne htype]
      exact expects_next haccept hslip htype (ih hr hrest)

/-- The tokens of a file that is read, with no slip, make a document. -/
theorem document_of_readXml {toU8string : UInt32 → Option Bytes} {file : Bytes} {reads : List XmlRead}
    (h : Calls (tokenStep toU8string) (afterToken filename) (openedFile file) reads (.ok root))
    (hslips : NoSlips filename (.prolog false) (tokensOf reads)) : XmlDocument XmlToken.IsMisc (inFile (tokensOf reads)) :=
  expects_of_calls h rfl hslips

/-- The file `<?p?><a b="1"><c/></a>`. -/
theorem document_of_readXml_nested : XmlDocument XmlToken.IsMisc [⟨.processor, [0x70]⟩, ⟨.openTag, [0x61]⟩, ⟨.identifier, [0x62]⟩,
    ⟨.equal, []⟩, ⟨.string, [0x31]⟩, ⟨.endTag, []⟩, ⟨.openTag, [0x63]⟩, ⟨.emptyTag, []⟩, ⟨.closeTag, [0x61]⟩] := by
  have hcalls : Calls (tokenStep encodeUtf8) (afterToken "") (openedFile [0x3C, 0x3F, 0x70, 0x3F, 0x3E, 0x3C, 0x61, 0x20, 0x62, 0x3D,
      0x22, 0x31, 0x22, 0x3E, 0x3C, 0x63, 0x2F, 0x3E, 0x3C, 0x2F, 0x61, 0x3E]) _ _ :=
    @Machine.calls_of_trace _ _ _ _ _ _ _ _ 5 10 _ rfl
  exact document_of_readXml hcalls ⟨id, id, id, id, nofun, id, nofun, id, nofun, id, trivial⟩

theorem root_last {Behind : XmlToken → Prop} (h : XmlRoot Behind tokens) :
    ∃ front name behind, tokens = front ++ ⟨.closeTag, name⟩ :: behind ∧ ∀ t ∈ behind, Behind t := by
  obtain @⟨name, v, attributes, inner, behind, -, -, -, -, hbehind⟩ := h
  refine ⟨⟨.openTag, name⟩ :: (attributes ++ ⟨.endTag, v⟩ :: inner), name, behind, ?_, hbehind⟩
  rw [List.cons_append, List.append_assoc, List.cons_append]

/-- The last token closes the root, or is one that may be behind it. -/
theorem document_last {Behind : XmlToken → Prop} (h : XmlDocument Behind tokens) :
    ∃ t, tokens.getLast? = some t ∧ (t.type = .closeTag ∨ Behind t) := by
  obtain ⟨front, root, rfl, hroot⟩ : ∃ front root, tokens = front ++ root ∧ XmlRoot Behind root := by
    obtain @⟨front, root, -, hroot⟩ | @⟨front, between, root, v, -, -, hroot⟩ := h
    · exact ⟨front, root, rfl, hroot⟩
    · exact ⟨front ++ ⟨.processor, v⟩ :: between, root, by rw [List.append_assoc, List.cons_append], hroot⟩
  obtain ⟨front', name, behind, rfl, hbehind⟩ := root_last hroot
  obtain ⟨t, ht⟩ : ∃ t, ((⟨.closeTag, name⟩ : XmlToken) :: behind).getLast? = some t :=
    ⟨_, List.getLast?_eq_some_getLast (List.cons_ne_nil _ _)⟩
  refine ⟨t, by rw [← List.append_assoc, List.getLast?_append, ht, Option.some_or], ?_⟩
  rcases List.mem_cons.mp (List.mem_of_getLast? ht) with rfl | hmem
  · exact .inl rfl
  · exact .inr (hbehind t hmem)

/-- The file `<a></a><?b?>` is read, and a processor tag is behind its root. -/
theorem not_document : ¬∀ (filename : String) (toU8string : UInt32 → Option Bytes) (file : Bytes) (reads : List XmlRead)
    (root : XmlNode), Calls (tokenStep toU8string) (afterToken filename) (openedFile file) reads (.ok root) →
      XmlDocument XmlToken.IsBlank (inFile (tokensOf reads)) := by
  intro h
  have hcalls : Calls (tokenStep encodeUtf8) (afterToken "") (openedFile [0x3C, 0x61, 0x3E, 0x3C, 0x2F, 0x61, 0x3E, 0x3C, 0x3F, 0x62,
      0x3F, 0x3E]) _ _ := @Machine.calls_of_trace _ _ _ _ _ _ _ _ 5 5 _ rfl
  have hdocument : XmlDocument XmlToken.IsBlank [⟨.openTag, [0x61]⟩, ⟨.endTag, []⟩, ⟨.closeTag, [0x61]⟩, ⟨.processor, [0x62]⟩] :=
    h _ _ _ _ _ hcalls
  obtain ⟨t, ht, htype⟩ := document_last hdocument
  obtain rfl := Option.some.inj ht
  rcases htype with htype | htype
  · cases htype
  · cases htype.1

end

end XmlParser

end Snapwebsites.Snapdatabase
