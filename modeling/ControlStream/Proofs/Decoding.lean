import ControlStream.Json.Decode
import ControlStream.Proofs.JsonText
import Mathlib.Data.List.Pairwise

/-!
# Decoding

What the decoders make of trees. A text that spells a value can be skipped. A record is read from
an object, each of the known members put into its field and the others skipped, as long as no known
member comes twice and no field that has to be given is missing. If the fields of the record are
independent, the order of the members does not matter.

## Main definitions

* `RecordShape.setMember`: put a member into its field.
* `RecordShape.Selects`: the members of an object that have the names of fields.
* `RecordShape.Gives`: members give the fields in their order, and make up a record.
* `RecordShape.Independent`: the order in which the fields are set does not matter.
* `RecordShape.ObjectWith`: an object with known members, in any order and between others.

## Main statements

* `Tree.SpelledBy.skip_eq`: a value that is spelled can be skipped.
* `decodeText_string`, `decodeNat_number`, `decodeList_array`: strings, numbers and arrays.
* `RecordShape.Selects.decode_object`: a record is read member by member.
* `RecordShape.decode_of_gives`: it is the record that the members make up.
* `RecordShape.ObjectWith.decode_eq`: so it is in any order and with others between them.
* `decodeJson_pretty`, `decodeJson_spelled`: a text is read as its value is.
-/

namespace ControlStream

/-! ### Skipped values -/

theorem skipItems_eq_ok {items : List Tree} (h : ∀ item ∈ items, skip item = .ok ()) :
    skipItems items = .ok () := by
  induction items with
  | nil => rfl
  | cons item items ih =>
    obtain ⟨hitem, hitems⟩ := List.forall_mem_cons.mp h
    rw [skipItems, hitem]
    exact ih hitems

theorem skipMembers_eq_ok_iff {members : List (Quoted × Tree)} :
    skipMembers members = .ok () ↔ ∀ m ∈ members, m.1.fault = none ∧ skip m.2 = .ok () := by
  induction members with
  | nil => simp [skipMembers]
  | cons member members ih =>
    obtain ⟨name, value⟩ := member
    rw [skipMembers, List.forall_mem_cons, ← ih]
    cases hfault : name.fault <;> cases hskip : skip value <;> simp [failOn, bind, Except.bind]

/-- An object is skipped if and only if its members can be. -/
theorem skip_object_iff {members : List (Quoted × Tree)} :
    skip (.object members none) = .ok () ↔
      ∀ m ∈ members, m.1.fault = none ∧ skip m.2 = .ok () := by
  rw [← skipMembers_eq_ok_iff, skip]
  cases skipMembers members <;> simp [failOn, bind, Except.bind]

theorem Quoted.SpelledBy.fault_eq {q : Quoted} {s : List Char} (h : q.SpelledBy s) :
    q.fault = none := by
  cases h
  rfl

theorem Numeral.SpelledBy.skippedFault?_eq {n : Numeral} {s : List Char} (h : n.SpelledBy s) :
    n.skippedFault? = none := by
  cases h with
  | unsigned h | minus h =>
    cases h
    rfl

/-- A value can be skipped, however deep and whatever its strings and numbers stand for. -/
theorem Tree.SpelledBy.skip_eq {tree : Tree} {text : List Char} (h : tree.SpelledBy text) :
    skip tree = .ok () := by
  induction h with
  | scalar h =>
    cases h with
    | null | true | false => rfl
    | number h => rw [skip, h.skippedFault?_eq, failOn]
    | string h => rw [skip, h.fault_eq, failOn]
  | list _ _ ih =>
    rw [skip, skipItems_eq_ok (List.forall_mem_map.mpr ih)]
    rfl
  | object hnames _ _ ih =>
    exact skip_object_iff.mpr <| List.forall_mem_map.mpr fun m hm =>
      ⟨(hnames m hm).quoted.fault_eq, ih m hm⟩
  | before _ _ ih | behind _ _ ih => exact ih

/-! ### Values -/

@[simp] theorem decodeBool_bool (b : Bool) : decodeBool (Json.bool b).tree = .ok b := rfl

@[simp] theorem decodeText_string (s : String) : decodeText (Json.string s).tree = .ok s := by
  rw [Json.tree, decodeText, Quoted.decode_ofString]
  rfl

theorem decodeNat_number {bound n : Nat} (hbound : n ≤ bound) (hn : n ≤ Decimal.maxSignificand)
    (expected : String) : decodeNat bound expected (Json.number n).tree = .ok n := by
  rw [Json.tree, decodeNat, Numeral.evaluate_ofNat hn]
  exact if_pos hbound

/-- Every size is read back. -/
@[simp] theorem decodeSize_number (n : UInt64) : decodeSize (Json.number n.toNat).tree = .ok n := by
  have hbound : n.toNat ≤ Decimal.maxSignificand := Nat.le_sub_one_of_lt n.toNat_lt
  have hread : decodeNat (Nat.pow 2 64 - 1) "usize" (Json.number n.toNat).tree = .ok n.toNat :=
    decodeNat_number hbound hbound _
  rw [decodeSize, hread]
  exact congrArg Except.ok UInt64.ofNat_toNat

/-- Every number of eight bits is read back. -/
@[simp] theorem decodeByte_number (n : UInt8) : decodeByte (Json.number n.toNat).tree = .ok n := by
  have hbound : n.toNat ≤ 255 := Nat.le_of_lt_succ n.toNat_lt
  have hsignificand : n.toNat ≤ Decimal.maxSignificand := Nat.le_trans hbound (by decide)
  rw [decodeByte, decodeNat_number hbound hsignificand]
  exact congrArg Except.ok UInt8.ofNat_toNat

/-- A string that may be absent, but is there. -/
@[simp] theorem decodeOption_string (s : String) :
    decodeOption decodeText (Json.string s).tree = .ok (some s) := by
  have hread : decodeOption decodeText (Json.string s).tree =
      (do return some (← decodeText (Json.string s).tree)) := rfl
  rw [hread, decodeText_string]
  rfl

/-- An array is read item by item. -/
theorem decodeList_array {α : Type} {decode : Decoder α} {toJson : α → Json}
    (h : ∀ a, decode (toJson a).tree = .ok a) (l : List α) :
    decodeList decode (Json.array (l.map toJson)).tree = .ok l := by
  have hitems : ∀ (l : List α) (read : Array α),
      decodeItems decode none read ((l.map toJson).map Json.tree) = .ok (read.toList ++ l) := by
    intro l
    induction l with
    | nil =>
      intro read
      rw [List.append_nil]
      rfl
    | cons a l ih =>
      intro read
      rw [List.map_cons, List.map_cons, decodeItems, h]
      refine (ih (read.push a)).trans ?_
      simp
  simpa [Json.tree, decodeList, Json.itemTrees_eq_map] using hitems l #[]

theorem decodeVector_items {α : Type} {decode : Decoder α} {toJson : α → Json}
    (h : ∀ a, decode (toJson a).tree = .ok a) (expected : String) {n : Nat} (l : List α)
    (hlength : l.length = n) (index : Nat) :
    decodeVector decode expected none index n ((l.map toJson).map Json.tree) =
      .ok ⟨⟨l⟩, hlength⟩ := by
  induction l generalizing n index with
  | nil =>
    subst hlength
    rfl
  | cons a l ih =>
    subst hlength
    have hread : decodeVector decode expected none index (l.length + 1)
        (((a :: l).map toJson).map Json.tree) = (do
          let a ← decode (toJson a).tree
          let rest ← decodeVector decode expected none (index + 1) l.length
            ((l.map toJson).map Json.tree)
          return (#v[a] ++ rest).cast (Nat.add_comm 1 l.length)) := rfl
    have hcons : (#v[a] ++ (⟨⟨l⟩, rfl⟩ : Vector α l.length)).cast (Nat.add_comm 1 l.length) =
        ⟨⟨a :: l⟩, rfl⟩ := by
      apply Vector.toArray_inj.mp
      simp
    rw [h, ih rfl] at hread
    exact hread.trans (congrArg Except.ok hcons)

/-- An array of a given length is read item by item. -/
theorem decodeExactly_array {α : Type} {decode : Decoder α} {toJson : α → Json}
    (h : ∀ a, decode (toJson a).tree = .ok a) {n : Nat} (expected : String) (v : Vector α n) :
    decodeExactly n expected decode (Json.array (v.toList.map toJson)).tree = .ok v := by
  rw [Json.tree, Json.itemTrees_eq_map]
  exact decodeVector_items h expected v.toList v.length_toList 0

/-! ### Records -/

def Json.namedTrees (members : List (String × Json)) : List (String × Tree) :=
  members.map fun m => (m.1, m.2.tree)

def presentMembers (members : List (String × Option Tree)) : List (String × Tree) :=
  members.filterMap fun m => m.2.map (m.1, ·)

theorem mem_presentMembers {members : List (String × Option Tree)} {name : String} {tree : Tree}
    (h : (name, some tree) ∈ members) : (name, tree) ∈ presentMembers members :=
  List.mem_filterMap.mpr ⟨_, h, rfl⟩

namespace RecordShape

variable {σ : Type} (shape : RecordShape σ)

def setMember (record : σ) (member : String × Tree) : Except JsonError σ :=
  match shape.fields.find? (·.name == member.1) with
  | some field => field.set member.2 record
  | none => .ok record

/-- Among the members of an object, `known` are the ones that have the names of fields. Every name
is a string of characters, however it is escaped: half a surrogate pair is none. -/
inductive Selects : List (Quoted × Tree) → List (String × Tree) → Prop
  | nil : Selects [] []
  | known {quoted : Quoted} {name : String} {value : Tree} {members : List (Quoted × Tree)}
    {known : List (String × Tree)} (hname : quoted.decode = .ok name)
    (hknown : name ∈ shape.fields.map (·.name)) (h : Selects members known) :
    Selects ((quoted, value) :: members) ((name, value) :: known)
  | unknown {quoted : Quoted} {name : String} {value : Tree} {members : List (Quoted × Tree)}
    {known : List (String × Tree)} (hname : quoted.decode = .ok name)
    (hunknown : name ∉ shape.fields.map (·.name)) (h : Selects members known) :
    Selects ((quoted, value) :: members) known

theorem selects_memberTrees {members : List (String × Json)}
    (h : members.map (·.1) ⊆ shape.fields.map (·.name)) :
    shape.Selects (Json.memberTrees members) (Json.namedTrees members) := by
  induction members with
  | nil => exact .nil
  | cons member members ih =>
    rw [List.map_cons, List.cons_subset] at h
    exact .known (Quoted.decode_ofString member.1) h.1 (ih h.2)

/-- Each of the names comes once, and no field is missing that has to be given. -/
structure Covers (names : List String) : Prop where
  nodup : names.Nodup
  required : ∀ field ∈ shape.fields, field.requiredInObject = true → field.name ∈ names

theorem Covers.perm {shape : RecordShape σ} {names names' : List String} (h : shape.Covers names)
    (hperm : names.Perm names') : shape.Covers names' :=
  ⟨hperm.nodup_iff.mp h.nodup, fun field hfield hneeded =>
    hperm.mem_iff.mp (h.required field hfield hneeded)⟩

theorem missing?_eq_none {seen : List String}
    (h : ∀ field ∈ shape.fields, field.requiredInObject = true → field.name ∈ seen) :
    shape.missing? seen = none := by
  have hnone : shape.fields.find? (fun f => f.requiredInObject && !seen.contains f.name) =
      none := by
    rw [List.find?_eq_none]
    intro field hfield
    by_cases hneeded : field.requiredInObject = true
    · simp [h field hfield hneeded]
    · simp [hneeded]
  rw [missing?, hnone]
  rfl

/-- A member is put into its field, and the rest is read after it. -/
theorem decodeMembers_known {quoted : Quoted} {name : String} (hname : quoted.decode = .ok name)
    (hknown : name ∈ shape.fields.map (·.name)) {seen : List String} (hnew : name ∉ seen)
    (fault : Option Fault) (record : σ) (value : Tree) (members : List (Quoted × Tree)) :
    shape.decodeMembers fault seen record ((quoted, value) :: members) =
      shape.setMember record (name, value) >>= fun record =>
        shape.decodeMembers fault (name :: seen) record members := by
  obtain ⟨field, hfield, hfieldName⟩ := List.mem_map.mp hknown
  obtain ⟨found, hfound⟩ : ∃ found, shape.fields.find? (·.name == name) = some found :=
    Option.isSome_iff_exists.mp
      (List.find?_isSome.mpr ⟨field, hfield, by simpa using hfieldName⟩)
  have hfoundName : found.name = name := by simpa using List.find?_some hfound
  have hcontains : seen.contains name = false := by simpa using hnew
  have hset : shape.setMember record (name, value) = found.set value record := by
    rw [setMember, hfound]
  have hread : orFault (.ok name : Except Fault String) = .ok name := rfl
  rw [decodeMembers, hname, hset]
  simp only [hread, bind, Except.bind, hfound, hfoundName, hcontains]
  rfl

/-- A member without a field is skipped. -/
theorem decodeMembers_unknown {quoted : Quoted} {name : String} (hname : quoted.decode = .ok name)
    (hunknown : name ∉ shape.fields.map (·.name)) {value : Tree} (hskip : skip value = .ok ())
    (fault : Option Fault) (seen : List String) (record : σ) (members : List (Quoted × Tree)) :
    shape.decodeMembers fault seen record ((quoted, value) :: members) =
      shape.decodeMembers fault seen record members := by
  have hnone : shape.fields.find? (·.name == name) = none := by
    rw [List.find?_eq_none]
    intro field hfield heq
    exact hunknown (List.mem_map.mpr ⟨field, hfield, by simpa using heq⟩)
  have hread : orFault (.ok name : Except Fault String) = .ok name := rfl
  rw [decodeMembers, hname]
  simp only [hread, bind, Except.bind, hnone, hskip]

namespace Selects

variable {shape} {members : List (Quoted × Tree)} {known : List (String × Tree)}

theorem decodeMembers_eq (h : shape.Selects members known)
    (hskip : ∀ m ∈ members, skip m.2 = .ok ()) {seen : List String} (record : σ)
    (hnodup : (known.map (·.1)).Nodup) (hseen : ∀ name ∈ known.map (·.1), name ∉ seen)
    (hrequired : ∀ field ∈ shape.fields, field.requiredInObject = true →
      field.name ∈ known.map (·.1) ∨ field.name ∈ seen) :
    shape.decodeMembers none seen record members = known.foldlM shape.setMember record := by
  induction h generalizing seen record with
  | nil =>
    have hmissing := shape.missing?_eq_none fun field hfield hneeded =>
      (hrequired field hfield hneeded).resolve_left (by simp)
    rw [decodeMembers, hmissing]
    rfl
  | @known _ name value members known hname hknown _ ih =>
    simp only [List.map_cons, List.nodup_cons, List.forall_mem_cons] at *
    have hrest (record : σ) : shape.decodeMembers none (name :: seen) record members =
        known.foldlM shape.setMember record := by
      apply ih hskip.2 record hnodup.2
      · intro other hother
        rw [List.mem_cons, not_or]
        exact ⟨fun heq => hnodup.1 (heq ▸ hother), hseen.2 other hother⟩
      · intro field hfield hneeded
        have hgiven := hrequired field hfield hneeded
        rw [List.mem_cons] at hgiven ⊢
        exact hgiven.elim (·.elim (.inr ∘ .inl) .inl) (.inr ∘ .inr)
    rw [shape.decodeMembers_known hname hknown hseen.1, List.foldlM_cons]
    exact congrArg _ (funext hrest)
  | unknown hname hunknown _ ih =>
    obtain ⟨hvalue, hmembers⟩ := List.forall_mem_cons.mp hskip
    rw [shape.decodeMembers_unknown hname hunknown hvalue]
    exact ih hmembers record hnodup hseen hrequired

/-- A record is read from an object member by member, whatever stands between them. -/
theorem decode_object (h : shape.Selects members known)
    (hskip : skip (.object members none) = .ok ()) (hcovers : shape.Covers (known.map (·.1))) :
    shape.decode (.object members none) = known.foldlM shape.setMember shape.blank :=
  h.decodeMembers_eq (fun m hm => (skip_object_iff.mp hskip m hm).2) _ hcovers.nodup
    (fun _ _ => List.not_mem_nil) fun field hfield hneeded =>
      .inl (hcovers.required field hfield hneeded)

end Selects

/-- The members give the fields, in the order of the fields, and make `r'` out of `r`. A field that
does not have to be given may be left out. -/
inductive Gives : List (RecordField σ) → List (String × Tree) → σ → σ → Prop
  | nil (r : σ) : Gives [] [] r r
  | given {field : RecordField σ} {fields : List (RecordField σ)} {value : Tree}
      {members : List (String × Tree)} {r r' r'' : σ} :
      field.set value r = .ok r' → Gives fields members r' r'' →
      Gives (field :: fields) ((field.name, value) :: members) r r''
  | leftOut {field : RecordField σ} {fields : List (RecordField σ)}
      {members : List (String × Tree)} {r r' : σ} :
      field.requiredInObject = false → Gives fields members r r' →
      Gives (field :: fields) members r r'

/-- A field whose value is read by `decode` and put into the record by `put`. -/
abbrev fieldOf {α : Type} (name : String) (decode : Decoder α) (put : α → σ → σ)
    (inObject inList : Bool) : RecordField σ where
  name := name
  set := fun tree r => do return put (← decode tree) r
  requiredInObject := inObject
  requiredInList := inList

namespace Gives

variable {shape} {fields : List (RecordField σ)} {members : List (String × Tree)} {r r' : σ}

theorem decoded {α : Type} {decode : Decoder α} {put : α → σ → σ} {inObject inList : Bool}
    {name : String} {value : Tree} {a : α} (h : decode value = .ok a)
    (hrest : Gives fields members (put a r) r') :
    Gives (fieldOf name decode put inObject inList :: fields) ((name, value) :: members) r r' := by
  have hset : (fieldOf name decode put inObject inList).set value r =
      (do return put (← decode value) r) := rfl
  refine .given ?_ hrest
  rw [hset, h]
  rfl

/-- A field that may be left out is given by a tree or not. -/
theorem optional {α : Type} {decode : Decoder α} {put : α → σ → σ} {inList : Bool} {name : String}
    (get : σ → α) (hget : put (get r) r = r) {tree : Option Tree} {given : Option α}
    (h : Option.Rel (fun tree a => decode tree = .ok a) tree given)
    {members : List (String × Option Tree)}
    (hrest : Gives fields (presentMembers members) (put (given.getD (get r)) r) r') :
    Gives (fieldOf name decode put false inList :: fields)
      (presentMembers ((name, tree) :: members)) r r' := by
  cases h with
  | none => exact .leftOut rfl (hget ▸ hrest)
  | some h => exact .decoded h hrest

theorem names_sublist (h : Gives fields members r r') :
    (members.map (·.1)).Sublist (fields.map (·.name)) := by
  induction h with
  | nil => exact .refl _
  | given _ _ ih => exact ih.cons_cons _
  | leftOut _ _ ih => exact ih.cons _

theorem required (h : Gives fields members r r') :
    ∀ field ∈ fields, field.requiredInObject = true → field.name ∈ members.map (·.1) := by
  induction h with
  | nil => simp
  | given _ _ ih =>
    rintro field (_ | ⟨_, hfield⟩) hneeded
    · exact List.mem_cons_self
    · exact List.mem_cons_of_mem _ (ih field hfield hneeded)
  | leftOut hoptional _ ih =>
    rintro field (_ | ⟨_, hfield⟩) hneeded
    · exact absurd hneeded (by simp [hoptional])
    · exact ih field hfield hneeded

theorem foldlM_setMember (h : Gives fields members r r')
    (hfind : ∀ field ∈ fields, shape.fields.find? (·.name == field.name) = some field) :
    members.foldlM shape.setMember r = .ok r' := by
  induction h with
  | nil => rfl
  | @given field _ value _ r _ _ hset _ ih =>
    obtain ⟨hfield, hfields⟩ := List.forall_mem_cons.mp hfind
    have hmember : shape.setMember r (field.name, value) = field.set value r := by
      rw [setMember, hfield]
    rw [List.foldlM_cons, hmember, hset]
    exact ih hfields
  | leftOut _ _ ih => exact ih (List.forall_mem_cons.mp hfind).2

end Gives

theorem find?_name {fields : List (RecordField σ)} (hnodup : (fields.map (·.name)).Nodup)
    {field : RecordField σ} (h : field ∈ fields) :
    fields.find? (·.name == field.name) = some field := by
  induction fields with
  | nil => cases h
  | cons first fields ih =>
    rw [List.map_cons, List.nodup_cons] at hnodup
    rcases List.mem_cons.mp h with rfl | h
    · simp
    · have hne : first.name ≠ field.name := fun heq => hnodup.1 (heq ▸ List.mem_map_of_mem h)
      rw [List.find?_cons_of_neg (by simpa using hne), ih hnodup.2 h]

/-- Members that give the fields make up a record. -/
theorem Gives.covers {shape : RecordShape σ} (hnodup : (shape.fields.map (·.name)).Nodup)
    {known : List (String × Tree)} {r r' : σ} (h : Gives shape.fields known r r') :
    shape.Covers (known.map (·.1)) :=
  ⟨hnodup.sublist h.names_sublist, h.required⟩

/-- A record is read from an object that gives its fields in their order. -/
theorem decode_of_gives (hnodup : (shape.fields.map (·.name)).Nodup)
    {members : List (String × Json)} {record : σ}
    (h : Gives shape.fields (Json.namedTrees members) shape.blank record) :
    shape.decode (Json.object members).tree = .ok record := by
  have hnames : (Json.namedTrees members).map (·.1) = members.map (·.1) := by
    simp [Json.namedTrees, Function.comp_def]
  have hselects : shape.Selects (Json.memberTrees members) (Json.namedTrees members) :=
    shape.selects_memberTrees (hnames ▸ h.names_sublist.subset)
  have hskip : skip (Json.object members).tree = .ok () :=
    (Json.object members).spelledBy_compact.skip_eq
  rw [Json.tree, hselects.decode_object hskip (h.covers hnodup)]
  exact h.foldlM_setMember fun field hfield => find?_name hnodup hfield

/-! ### The order of members -/

section Order

variable {shape : RecordShape σ} {known known' : List (String × Tree)} {r r' : σ}

/-- It does not matter in which order two fields are set. -/
def Commute (f g : RecordField σ) : Prop :=
  ∀ (s t : Tree) (r r' : σ), (f.set s r >>= g.set t) = .ok r' ↔ (g.set t r >>= f.set s) = .ok r'

instance : Std.Symm (Commute (σ := σ)) := ⟨fun _ _ h s t r r' => (h t s r r').symm⟩

/-- Fields whose values are put into different places of the record. -/
theorem commute_fieldOf {α β : Type} {name name' : String} {decode : Decoder α}
    {decode' : Decoder β} {put : α → σ → σ} {put' : β → σ → σ} {inObject inList : Bool}
    {inObject' inList' : Bool} (h : ∀ a b r, put' b (put a r) = put a (put' b r)) :
    Commute (fieldOf name decode put inObject inList)
      (fieldOf name' decode' put' inObject' inList') := by
  intro s t r r'
  simp only [bind, Except.bind, pure, Except.pure]
  cases decode s <;> cases decode' t <;> simp [h]

/-- The fields of the record have different names, and their order does not matter. -/
structure Independent (shape : RecordShape σ) : Prop where
  nodup : (shape.fields.map (·.name)).Nodup
  commute : shape.fields.Pairwise Commute

/-- A member without a field leaves the record as it is. -/
theorem setMember_of_find?_eq_none {m : String × Tree}
    (h : shape.fields.find? (·.name == m.1) = none) (r : σ) : shape.setMember r m = pure r := by
  rw [setMember, h]
  rfl

theorem setMember_of_find?_eq_some {m : String × Tree} {f : RecordField σ}
    (h : shape.fields.find? (·.name == m.1) = some f) (r : σ) :
    shape.setMember r m = f.set m.2 r := by
  rw [setMember, h]

/-- The order of two members does not matter. -/
theorem Independent.setMember_comm (h : shape.Independent) {m m' : String × Tree}
    (hne : m.1 ≠ m'.1) (r r' : σ) :
    (shape.setMember r m >>= (shape.setMember · m')) = .ok r' ↔
      (shape.setMember r m' >>= (shape.setMember · m)) = .ok r' := by
  cases hfield : shape.fields.find? (·.name == m.1) with
  | none =>
    simp only [setMember_of_find?_eq_none hfield, pure_bind, bind_pure]
  | some f =>
    cases hfield' : shape.fields.find? (·.name == m'.1) with
    | none =>
      simp only [setMember_of_find?_eq_none hfield', pure_bind, bind_pure]
    | some g =>
      have hfname : f.name = m.1 := by simpa using List.find?_some hfield
      have hgname : g.name = m'.1 := by simpa using List.find?_some hfield'
      have hfg : f ≠ g := fun heq => hne (hfname.symm.trans ((congrArg _ heq).trans hgname))
      have hcommute : Commute f g := h.commute.forall (List.mem_of_find?_eq_some hfield)
        (List.mem_of_find?_eq_some hfield') hfg
      simp only [setMember_of_find?_eq_some hfield, setMember_of_find?_eq_some hfield']
      exact hcommute m.2 m'.2 r r'

/-- A record is read from its members in any order. -/
theorem Independent.foldlM_setMember_perm (h : shape.Independent) (hperm : known.Perm known')
    (hnodup : (known.map (·.1)).Nodup) (hread : known.foldlM shape.setMember r = .ok r') :
    known'.foldlM shape.setMember r = .ok r' := by
  induction hperm generalizing r with
  | nil => exact hread
  | cons m _ ih =>
    rw [List.foldlM_cons] at hread ⊢
    cases hset : shape.setMember r m with
    | error e =>
      rw [hset] at hread
      cases hread
    | ok r₁ =>
      rw [hset] at hread
      exact ih (List.nodup_cons.mp hnodup).2 hread
  | swap m m' known =>
    have hne : m'.1 ≠ m.1 := by
      rw [List.map_cons, List.map_cons, List.nodup_cons, List.mem_cons, not_or] at hnodup
      exact hnodup.1.1
    simp only [List.foldlM_cons, ← bind_assoc] at hread ⊢
    cases hset : shape.setMember r m' >>= (shape.setMember · m) with
    | error e =>
      rw [hset] at hread
      cases hread
    | ok r₁ =>
      rw [hset] at hread
      rw [(h.setMember_comm hne r r₁).mp hset]
      exact hread
  | trans hperm _ ih ih' =>
    exact ih' ((hperm.map _).nodup_iff.mp hnodup) (ih hnodup hread)

/-- An object with known members in any order and others in any place between them. -/
inductive ObjectWith (shape : RecordShape σ) (known : List (String × Tree)) : Tree → Prop
  | object {members : List (Quoted × Tree)} {selected : List (String × Tree)}
    (h : shape.Selects members selected) (hperm : selected.Perm known) :
    ObjectWith shape known (.object members none)

theorem Selects.exists_of_mem {members : List (Quoted × Tree)} (h : shape.Selects members known)
    {m : String × Tree} (hm : m ∈ known) : ∃ quoted, (quoted, m.2) ∈ members := by
  induction h with
  | nil => cases hm
  | known _ _ _ ih =>
    rcases List.mem_cons.mp hm with rfl | hm
    · exact ⟨_, List.mem_cons_self⟩
    · exact (ih hm).imp fun _ => List.mem_cons_of_mem _
  | unknown _ _ _ ih => exact (ih hm).imp fun _ => List.mem_cons_of_mem _

theorem ObjectWith.skip_value {tree : Tree} (h : shape.ObjectWith known tree)
    (hskip : skip tree = .ok ()) {m : String × Tree} (hm : m ∈ known) : skip m.2 = .ok () := by
  cases h with
  | object hselects hperm =>
    obtain ⟨quoted, hmember⟩ := hselects.exists_of_mem (hperm.mem_iff.mpr hm)
    exact (skip_object_iff.mp hskip _ hmember).2

/-- A record is read from the known members of an object. -/
theorem ObjectWith.decode_eq {tree : Tree} (h : shape.ObjectWith known tree)
    (hshape : shape.Independent) (hskip : skip tree = .ok ())
    (hgives : Gives shape.fields known shape.blank r) : shape.decode tree = .ok r := by
  cases h with
  | object hselects hperm =>
    have hcovers := hgives.covers hshape.nodup
    have hknown : known.foldlM shape.setMember shape.blank = .ok r :=
      hgives.foldlM_setMember fun field hfield => find?_name hshape.nodup hfield
    rw [hselects.decode_object hskip (hcovers.perm (hperm.map _).symm)]
    exact hshape.foldlM_setMember_perm hperm.symm hcovers.nodup hknown

end Order

end RecordShape

/-- A text is read as the value it spells. -/
theorem decodeJson_spelled {α : Type} (decode : Decoder α) {tree : Tree} {text : List Char}
    (h : tree.SpelledBy text) : decodeJson decode text = decode tree := by
  rw [decodeJson, h.read_eq]
  cases decode tree <;> rfl

theorem decodeJson_pretty {α : Type} (decode : Decoder α) (j : Json) :
    decodeJson decode j.pretty.toList = decode j.tree :=
  decodeJson_spelled decode j.spelledBy_pretty

end ControlStream
