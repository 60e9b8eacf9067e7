import Mathlib.Order.Lattice
import XmlTemplate.Proofs.Outcome
import XmlTemplate.Proofs.Dictionary.FirstWins

/-!
# Occurrences in files

Which occurrences a document or a tree holds, told apart from the functions that collect them. A
place is the way to a part of it by the numbers of children, so that the places in their order as
lists are the order of the file. In a document, the occurrences are the entries with a key that lie
in no other one; in a tree, they are the leaves under the keys on the way to them. The dictionary of
a file is made of exactly these, one after the other.
-/

namespace XmlTemplate

namespace Dictionary

/-- A list holds what stands at all places where something stands, in the order of the places. -/
def AreListed {α : Type} (stands : List Nat → α → Prop) (found : List α) : Prop :=
  ∃ places : List (List Nat × α), places.Pairwise (fun p q => p.1 < q.1) ∧
    (∀ p, p ∈ places ↔ stands p.1 p.2) ∧ found = places.map Prod.snd

/-- The places in parts with numbers from `n` on. -/
def numbered {α : Type} (n : Nat) : List (List (List Nat × α)) → List (List Nat × α)
  | [] => []
  | places :: rest => places.map (fun p => (n :: p.1, p.2)) ++ numbered (n + 1) rest

variable {α : Type}

theorem mem_numbered_iff {n : Nat} {parts : List (List (List Nat × α))} {p : List Nat × α} :
    p ∈ numbered n parts ↔
      ∃ i place places, p.1 = (n + i) :: place ∧ parts[i]? = some places ∧
        (place, p.2) ∈ places := by
  induction parts generalizing n with
  | nil => simp [numbered]
  | cons first rest ih =>
    rw [numbered, List.mem_append, ih, List.mem_map]
    constructor
    · rintro (⟨q, hq, rfl⟩ | ⟨i, place, places, hplace, hpart, hmem⟩)
      · exact ⟨0, q.1, first, rfl, rfl, hq⟩
      · exact ⟨i + 1, place, places, by rw [hplace]; congr 1; omega, hpart, hmem⟩
    · rintro ⟨i, place, places, hplace, hpart, hmem⟩
      cases i with
      | zero =>
        cases hpart
        exact .inl ⟨(place, p.2), hmem, Prod.ext hplace.symm rfl⟩
      | succ i => exact .inr ⟨i, place, places, by rw [hplace]; congr 1; omega, hpart, hmem⟩

theorem pairwise_numbered {n : Nat} {parts : List (List (List Nat × α))}
    (h : ∀ places ∈ parts, places.Pairwise fun p q => p.1 < q.1) :
    (numbered n parts).Pairwise fun p q => p.1 < q.1 := by
  induction parts generalizing n with
  | nil => exact .nil
  | cons first rest ih =>
    obtain ⟨hfirst, hrest⟩ := List.forall_mem_cons.1 h
    refine List.pairwise_append.2 ⟨?_, ih hrest, fun p hp q hq => ?_⟩
    · rw [List.pairwise_map]
      exact hfirst.imp fun hlt => List.cons_lt_cons_iff.2 (.inr ⟨rfl, hlt⟩)
    · obtain ⟨p, -, rfl⟩ := List.mem_map.1 hp
      obtain ⟨i, place, places, hplace, -⟩ := mem_numbered_iff.1 hq
      rw [hplace]
      exact List.cons_lt_cons_iff.2 (.inl (by omega))

theorem map_numbered {β : Type} (f : α → β) (n : Nat) (parts : List (List (List Nat × α))) :
    (numbered n parts).map (fun p => f p.2) =
      parts.flatMap fun places => places.map fun p => f p.2 := by
  induction parts generalizing n with
  | nil => rfl
  | cons first rest ih => simp [numbered, ih]

end Dictionary

/-! ## Documents -/

namespace Element

/-- The element that is reached through the children with these numbers. -/
def at? : List Nat → Element → Option Element
  | [], e => some e
  | n :: place, e =>
    match e.children[n]? with
    | some (.child child) => child.at? place
    | _ => none

/-- The element is an entry of a dictionary. -/
def IsEntry (e : Element) : Prop := e.localName = "entry" ∧ (e.attribute? "key").isSome

instance (e : Element) : Decidable e.IsEntry := inferInstanceAs (Decidable (_ ∧ _))

/-- An entry stands at this place of a document and in no other one, with this key and text. -/
def Stands (root : Element) (place : List Nat) (occurrence : String × String) : Prop :=
  ∃ e key, root.at? place = some e ∧ e.localName = "entry" ∧ e.attribute? "key" = some key ∧
    occurrence = (Text.unescape key, e.innerMarkup) ∧
    ∀ above outer, above <+: place → above ≠ place → root.at? above = some outer → ¬outer.IsEntry

mutual

/-- The places of entries in an element. -/
def entryPlaces : Element → List (List Nat × String × String)
  | ⟨name, attributes, _, _, children⟩ =>
    match attributes.lookup "key" with
    | some key =>
      if localPart name = "entry" then [([], Text.unescape key, contentMarkup children)]
      else Dictionary.numbered 0 (contentPlaces children)
    | none => Dictionary.numbered 0 (contentPlaces children)

/-- The places of entries in the pieces of some content. -/
def contentPlaces : List (Node Element) → List (List (List Nat × String × String))
  | [] => []
  | .text _ :: rest => [] :: contentPlaces rest
  | .child e :: rest => e.entryPlaces :: contentPlaces rest

end

theorem entryPlaces_of_key {e : Element} {key : String} (hname : e.localName = "entry")
    (hkey : e.attribute? "key" = some key) :
    e.entryPlaces = [([], Text.unescape key, e.innerMarkup)] := by
  obtain ⟨name, attributes, line, selfClosing, children⟩ := e
  have hlookup : attributes.lookup "key" = some key := hkey
  rw [entryPlaces, hlookup]
  exact if_pos hname

theorem entryPlaces_of_not_isEntry {e : Element} (h : ¬e.IsEntry) :
    e.entryPlaces = Dictionary.numbered 0 (contentPlaces e.children) := by
  obtain ⟨name, attributes, line, selfClosing, children⟩ := e
  rw [entryPlaces]
  split
  · rename_i key hkey
    have hkey : (attributes.lookup "key").isSome := by rw [hkey]; rfl
    exact if_neg fun hname => h ⟨hname, hkey⟩
  · rfl

theorem isEntry_iff {e : Element} :
    e.IsEntry ↔ ∃ key, e.localName = "entry" ∧ e.attribute? "key" = some key := by
  rw [IsEntry, Option.isSome_iff_exists, exists_and_left]

theorem getElem?_contentPlaces (es : List (Node Element)) (n : Nat) :
    (contentPlaces es)[n]? = es[n]?.map fun
      | .text _ => []
      | .child e => e.entryPlaces := by
  induction es generalizing n with
  | nil => rfl
  | cons node es ih => cases node <;> cases n <;> simp [contentPlaces, ih]

mutual

theorem map_snd_entryPlaces : ∀ e : Element, e.entryPlaces.map Prod.snd = Dictionary.ofElement e
  | ⟨name, attributes, _, _, children⟩ => by
    have hcontent : (Dictionary.numbered 0 (contentPlaces children)).map Prod.snd =
        Dictionary.ofContent children :=
      (Dictionary.map_numbered id 0 _).trans (flatMap_contentPlaces children)
    rw [entryPlaces, Dictionary.ofElement]
    cases attributes.lookup "key" with
    | none => exact hcontent
    | some key =>
      by_cases hname : localPart name = "entry"
      · simp only [if_pos hname]
        rfl
      · simp only [if_neg hname]
        exact hcontent

theorem flatMap_contentPlaces : ∀ es : List (Node Element),
    (contentPlaces es).flatMap (·.map Prod.snd) = Dictionary.ofContent es
  | [] => rfl
  | .text _ :: rest => by
    rw [contentPlaces, Dictionary.ofContent, List.flatMap_cons, flatMap_contentPlaces rest]
    rfl
  | .child e :: rest => by
    rw [contentPlaces, Dictionary.ofContent, List.flatMap_cons, flatMap_contentPlaces rest,
      map_snd_entryPlaces e]

end

mutual

theorem pairwise_entryPlaces : ∀ e : Element, e.entryPlaces.Pairwise fun p q => p.1 < q.1
  | ⟨name, attributes, _, _, children⟩ => by
    have hcontent := Dictionary.pairwise_numbered (n := 0) (pairwise_contentPlaces children)
    rw [entryPlaces]
    split
    · split
      · exact List.pairwise_singleton ..
      · exact hcontent
    · exact hcontent

theorem pairwise_contentPlaces : ∀ es : List (Node Element),
    ∀ places ∈ contentPlaces es, places.Pairwise fun p q => p.1 < q.1
  | [] => nofun
  | .text _ :: rest => List.forall_mem_cons.2 ⟨.nil, pairwise_contentPlaces rest⟩
  | .child e :: rest =>
    List.forall_mem_cons.2 ⟨pairwise_entryPlaces e, pairwise_contentPlaces rest⟩

end

theorem stands_nil_iff {root : Element} {occurrence : String × String} :
    root.Stands [] occurrence ↔ ∃ key, root.localName = "entry" ∧
      root.attribute? "key" = some key ∧ occurrence = (Text.unescape key, root.innerMarkup) := by
  constructor
  · rintro ⟨e, key, hat, hname, hkey, hoccurrence, -⟩
    cases hat
    exact ⟨key, hname, hkey, hoccurrence⟩
  · rintro ⟨key, hname, hkey, hoccurrence⟩
    refine ⟨root, key, rfl, hname, hkey, hoccurrence, fun above outer habove hne => ?_⟩
    exact absurd (List.prefix_nil.1 habove) hne

/-- What stands within an element that is no entry stands in one of its children. -/
theorem stands_cons_iff {root : Element} {n : Nat} {place : List Nat}
    {occurrence : String × String} : root.Stands (n :: place) occurrence ↔
      ¬root.IsEntry ∧ ∃ child, root.children[n]? = some (.child child) ∧
        child.Stands place occurrence := by
  constructor
  · rintro ⟨e, key, hat, hname, hkey, hoccurrence, habove⟩
    refine ⟨habove [] root List.nil_prefix nofun rfl, ?_⟩
    rw [at?] at hat
    split at hat
    · rename_i child hchild
      refine ⟨child, hchild, e, key, hat, hname, hkey, hoccurrence, ?_⟩
      intro above outer hle hne hat
      refine habove (n :: above) outer (List.cons_prefix_cons.2 ⟨rfl, hle⟩) ?_ ?_
      · simpa using hne
      · rw [at?, hchild]
        exact hat
    · cases hat
  · rintro ⟨hroot, child, hchild, e, key, hat, hname, hkey, hoccurrence, habove⟩
    have hinside (above : List Nat) : root.at? (n :: above) = child.at? above := by
      rw [at?, hchild]
    refine ⟨e, key, by rw [hinside, hat], hname, hkey, hoccurrence, ?_⟩
    intro above outer hle hne hat
    cases above with
    | nil =>
      cases hat
      exact hroot
    | cons m above =>
      obtain ⟨rfl, hinner⟩ := List.cons_prefix_cons.1 hle
      rw [hinside] at hat
      exact habove above outer hinner (by simpa using hne) hat

theorem mem_entryPlaces_iff {root : Element} {place : List Nat} {occurrence : String × String} :
    (place, occurrence) ∈ root.entryPlaces ↔ root.Stands place occurrence := by
  induction place generalizing root with
  | nil =>
    rw [stands_nil_iff]
    by_cases hentry : root.IsEntry
    · obtain ⟨key, hname, hkey⟩ := isEntry_iff.1 hentry
      rw [entryPlaces_of_key hname hkey]
      simp [hname, hkey]
    · rw [entryPlaces_of_not_isEntry hentry, Dictionary.mem_numbered_iff]
      constructor
      · rintro ⟨i, place, places, hplace, -⟩
        cases hplace
      · rintro ⟨key, hname, hkey, -⟩
        exact absurd (isEntry_iff.2 ⟨key, hname, hkey⟩) hentry
  | cons n place ih =>
    rw [stands_cons_iff]
    by_cases hentry : root.IsEntry
    · obtain ⟨key, hname, hkey⟩ := isEntry_iff.1 hentry
      rw [entryPlaces_of_key hname hkey]
      simp [hentry]
    · rw [entryPlaces_of_not_isEntry hentry, Dictionary.mem_numbered_iff]
      constructor
      · rintro ⟨i, inner, places, hplace, hpart, hmem⟩
        obtain ⟨rfl, rfl⟩ : n = i ∧ place = inner := by simpa using hplace
        rw [getElem?_contentPlaces, Option.map_eq_some_iff] at hpart
        obtain ⟨node, hnode, rfl⟩ := hpart
        cases node with
        | text text => cases hmem
        | child child => exact ⟨hentry, child, hnode, ih.1 hmem⟩
      · rintro ⟨-, child, hchild, hstands⟩
        refine ⟨n, place, child.entryPlaces, by simp, ?_, ih.2 hstands⟩
        rw [getElem?_contentPlaces, hchild]
        rfl

/-- The occurrences in a document are listed in its order. -/
theorem areListed (root : Element) : Dictionary.AreListed root.Stands (Dictionary.ofElement root) :=
  ⟨root.entryPlaces, pairwise_entryPlaces root, fun _ => mem_entryPlaces_iff,
    (map_snd_entryPlaces root).symm⟩

end Element

/-! ## Trees -/

namespace Json

/-- The fields of a map. -/
def fields? : Json → Option (List (String × Json))
  | .object fields => some fields
  | _ => none

theorem eq_object_of_fields? {tree : Json} {fields : List (String × Json)}
    (h : tree.fields? = some fields) : tree = .object fields := by
  cases tree <;> cases h
  rfl

/-- The tree that is reached through the fields with these numbers, and the keys on the way. -/
def at? : List Nat → Json → Option (List String × Json)
  | [], tree => some ([], tree)
  | n :: place, .object fields =>
    match fields[n]? with
    | some (key, value) => (value.at? place).map fun (keys, inner) => (key :: keys, inner)
    | none => none
  | _ :: _, _ => none

/-- The text of a leaf. Lists are none. -/
def leafText? : Json → Option String
  | .null => some ""
  | .bool b => some (if b then "true" else "false")
  | .int n => some (String.ofList (Number.intText n))
  | .float f => some (floatText f)
  | .string s => some s
  | .array _ | .object _ => none

/-- A leaf stands at this place of a tree, with its keys joined by points and its text. -/
def Stands (tree : Json) (place : List Nat) (occurrence : String × String) : Prop :=
  ∃ keys leaf text, tree.at? place = some (keys, leaf) ∧ leaf.leafText? = some text ∧
    occurrence = (".".intercalate keys, text)

mutual

/-- The places of leaves in a tree, with the keys on the way to them and their texts. -/
def leafPlaces : Json → List (List Nat × List String × String)
  | .object fields => Dictionary.numbered 0 (fieldPlaces fields)
  | .null => [([], [], "")]
  | .bool b => [([], [], if b then "true" else "false")]
  | .int n => [([], [], String.ofList (Number.intText n))]
  | .float f => [([], [], floatText f)]
  | .string s => [([], [], s)]
  | .array _ => []

/-- The places of leaves in fields. -/
def fieldPlaces : List (String × Json) → List (List (List Nat × List String × String))
  | [] => []
  | (key, value) :: rest =>
    value.leafPlaces.map (fun p => (p.1, key :: p.2.1, p.2.2)) :: fieldPlaces rest

end

theorem getElem?_fieldPlaces (fields : List (String × Json)) (n : Nat) :
    (fieldPlaces fields)[n]? = fields[n]?.map fun field =>
      field.2.leafPlaces.map fun p => (p.1, field.1 :: p.2.1, p.2.2) := by
  induction fields generalizing n with
  | nil => rfl
  | cons field fields ih => cases n <;> simp [fieldPlaces, ih]

mutual

theorem pairwise_leafPlaces : ∀ tree : Json, tree.leafPlaces.Pairwise fun p q => p.1 < q.1
  | .object fields => Dictionary.pairwise_numbered (pairwise_fieldPlaces fields)
  | .null | .bool _ | .int _ | .float _ | .string _ => List.pairwise_singleton ..
  | .array _ => .nil

theorem pairwise_fieldPlaces : ∀ fields : List (String × Json),
    ∀ places ∈ fieldPlaces fields, places.Pairwise fun p q => p.1 < q.1
  | [] => nofun
  | (_, value) :: rest =>
    List.forall_mem_cons.2
      ⟨List.pairwise_map.2 (pairwise_leafPlaces value), pairwise_fieldPlaces rest⟩

end

theorem mem_leafPlaces_iff {tree : Json} {place : List Nat} {keys : List String} {text : String} :
    (place, keys, text) ∈ tree.leafPlaces ↔
      ∃ leaf, tree.at? place = some (keys, leaf) ∧ leaf.leafText? = some text := by
  induction place generalizing tree keys with
  | nil =>
    cases tree with
    | array items => simp [leafPlaces, at?, leafText?]
    | object fields => simp [leafPlaces, at?, leafText?, Dictionary.mem_numbered_iff]
    | _ => simp [leafPlaces, at?, leafText?, eq_comm]
  | cons n place ih =>
    cases tree with
    | object fields =>
      rw [leafPlaces, Dictionary.mem_numbered_iff]
      constructor
      · rintro ⟨i, inner, places, hplace, hpart, hmem⟩
        obtain ⟨rfl, rfl⟩ : n = i ∧ place = inner := by simpa using hplace
        rw [getElem?_fieldPlaces, Option.map_eq_some_iff] at hpart
        obtain ⟨⟨key, value⟩, hfield, rfl⟩ := hpart
        obtain ⟨⟨_, below, _⟩, hbelow, heq⟩ := List.mem_map.1 hmem
        obtain ⟨rfl, rfl, rfl⟩ : _ = place ∧ key :: below = keys ∧ _ = text := by simpa using heq
        obtain ⟨leaf, hat, htext⟩ := ih.1 hbelow
        refine ⟨leaf, ?_, htext⟩
        simp only [at?, hfield, hat, Option.map_some]
      · rintro ⟨leaf, hat, htext⟩
        rw [at?] at hat
        split at hat
        · rename_i key value hfield
          obtain ⟨⟨below, inner⟩, hbelow, heq⟩ := Option.map_eq_some_iff.1 hat
          cases heq
          refine ⟨n, place, value.leafPlaces.map fun p => (p.1, key :: p.2.1, p.2.2), by simp, ?_,
            ?_⟩
          · rw [getElem?_fieldPlaces, hfield]
            rfl
          · exact List.mem_map.2 ⟨_, ih.2 ⟨leaf, hbelow, htext⟩, rfl⟩
        · cases hat
    | _ => simp [leafPlaces, at?]

end Json

namespace Dictionary

mutual

/-- Below a key, the key of a leaf is that key and the keys on the way to the leaf. -/
theorem ofTree_eq : ∀ (tree : Json) {outer : String}, outer ≠ "" →
    ofTree outer tree = tree.leafPlaces.map fun p => (".".intercalate (outer :: p.2.1), p.2.2)
  | .object fields, outer, h => by
    rw [ofTree, ofFields_eq fields h, Json.leafPlaces]
    exact (map_numbered
      (fun leaf : List String × String => (".".intercalate (outer :: leaf.1), leaf.2)) 0 _).symm
  | .null, outer, h => by
    rw [ofTree, if_neg h, Json.leafPlaces, List.map_singleton, String.intercalate_singleton]
  | .bool _, outer, h | .int _, outer, h | .float _, outer, h | .string _, outer, h => by
    rw [ofTree, Json.leafPlaces, List.map_singleton, String.intercalate_singleton]
  | .array _, outer, h => rfl

theorem ofFields_eq : ∀ (fields : List (String × Json)) {outer : String}, outer ≠ "" →
    ofFields outer fields = (Json.fieldPlaces fields).flatMap fun places =>
      places.map fun p => (".".intercalate (outer :: p.2.1), p.2.2)
  | [], outer, h => rfl
  | (key, value) :: rest, outer, h => by
    have hkey : joinKey outer key = outer ++ "." ++ key := if_neg h
    have hne : outer ++ "." ++ key ≠ "" := by simp
    rw [ofFields, hkey, ofTree_eq value hne, ofFields_eq rest h, Json.fieldPlaces,
      List.flatMap_cons, List.map_map]
    simp only [Function.comp_def, String.intercalate_cons_append, String.intercalate_cons_cons]

end

/-- The occurrences of a map are its leaves under their keys joined by points. -/
theorem ofFields_empty_eq {fields : List (String × Json)} (h : ∀ field ∈ fields, field.1 ≠ "") :
    ofFields "" fields =
      (Json.object fields).leafPlaces.map fun p => (".".intercalate p.2.1, p.2.2) := by
  rw [Json.leafPlaces,
    map_numbered fun leaf : List String × String => (".".intercalate leaf.1, leaf.2)]
  induction fields with
  | nil => rfl
  | cons field fields ih =>
    obtain ⟨key, value⟩ := field
    obtain ⟨hkey, hrest⟩ := List.forall_mem_cons.1 h
    have hjoin : joinKey "" key = key := if_pos rfl
    rw [ofFields, hjoin, ofTree_eq value hkey, ih hrest, Json.fieldPlaces, List.flatMap_cons,
      List.map_map]
    rfl

end Dictionary

/-- The occurrences in a map are listed in its order. -/
theorem Json.areListed {fields : List (String × Json)} (h : ∀ field ∈ fields, field.1 ≠ "") :
    Dictionary.AreListed (Json.object fields).Stands (Dictionary.ofFields "" fields) := by
  refine ⟨(Json.object fields).leafPlaces.map fun p => (p.1, ".".intercalate p.2.1, p.2.2),
    List.pairwise_map.2 (Json.pairwise_leafPlaces _), fun p => ?_, ?_⟩
  · obtain ⟨place, occurrence⟩ := p
    simp only [List.mem_map]
    constructor
    · rintro ⟨⟨place, keys, text⟩, hmem, heq⟩
      cases heq
      obtain ⟨leaf, hat, htext⟩ := Json.mem_leafPlaces_iff.1 hmem
      exact ⟨keys, leaf, text, hat, htext, rfl⟩
    · rintro ⟨keys, leaf, text, hat, htext, heq⟩
      exact ⟨_, Json.mem_leafPlaces_iff.2 ⟨leaf, hat, htext⟩, congrArg _ heq.symm⟩
  · rw [Dictionary.ofFields_empty_eq h, List.map_map]
    rfl

namespace Dictionary

theorem occurrences_of_document {text : String} {document : Document}
    (h : Document.read text = .ok document) (file : String) :
    occurrences .xml file text = .ok (ofElement document.root) := by
  rw [occurrences, h]

/-- A dictionary holds the first text of each key that occurs in its file, and lists the keys of all
later occurrences, in each of the formats. -/
theorem parse_isFirstWins (file language text : String) :
    (∀ document, Document.read text = .ok document →
      ∃ found, AreListed document.root.Stands found ∧
        (ofOccurrences file language found).IsFirstWins found ∧
        occurrences .xml file text = .ok found) ∧
    (∀ fields : List (String × Json), (∀ field ∈ fields, field.1 ≠ "") →
      ∃ found, AreListed (Json.object fields).Stands found ∧
        (ofOccurrences file language found).IsFirstWins found ∧
        occurrencesOfTree file (some (.object fields)) = .ok found ∧
        (Json.read? text = some (.object fields) → occurrences .json file text = .ok found) ∧
        (Yaml.json? text = some (.object fields) → occurrences .yaml file text = .ok found)) ∧
    ∀ found, occurrences (.ofFile file) file text = .ok found →
      parse file language text = .ok (ofOccurrences file language found) := by
  refine ⟨fun document hread => ?_, fun fields hkeys => ?_, fun found hfound => ?_⟩
  · exact ⟨ofElement document.root, document.root.areListed, isFirstWins_ofOccurrences ..,
      occurrences_of_document hread file⟩
  · refine ⟨ofFields "" fields, Json.areListed hkeys, isFirstWins_ofOccurrences .., rfl, ?_, ?_⟩
    · intro hread
      rw [occurrences, hread]
      rfl
    · intro hread
      rw [occurrences, hread]
      rfl
  · rw [parse, hfound]
    rfl

/-- An entry in another one is part of its text, and one without a key is none. -/
def nestedEntries : String :=
  "<d><entry key='a'>x<entry key='b'/></entry><entry>no</entry><entry key='a'>y</entry></d>"

/-- A key with a point and the way to a nested one. -/
def collidingKeys : String := "\x7b\"a.b\":\"x\",\"a\":\x7b\"b\":2,\"c\":null\x7d\x7d"

theorem parse_isFirstWins_colliding :
    (∃ document d, Document.read nestedEntries = .ok document ∧
      parse "m.xml" "en" nestedEntries = .ok d ∧
      d.entries = [("a", "x<entry key=\"b\"/>")] ∧ d.duplicates = ["a"] ∧
      ∃ found, AreListed document.root.Stands found ∧ d.IsFirstWins found) ∧
    ∃ fields d, Json.read? collidingKeys = some (.object fields) ∧
      parse "m.json" "en" collidingKeys = .ok d ∧
      d.entries = [("a.b", "x"), ("a.c", "")] ∧ d.duplicates = ["a.b"] ∧
      ∃ found, AreListed (Json.object fields).Stands found ∧ d.IsFirstWins found := by
  constructor
  · have hread : (Document.read nestedEntries).toOption.any fun document =>
        ofElement document.root = [("a", "x<entry key=\"b\"/>"), ("a", "y")] := by
      decide +kernel
    obtain ⟨document, hread, hentries⟩ := Outcome.exists_of_any hread
    obtain ⟨hdocument, -, hparse⟩ := parse_isFirstWins "m.xml" "en" nestedEntries
    obtain ⟨found, hlisted, hfirst, hfound⟩ := hdocument document hread
    have heq : found = [("a", "x<entry key=\"b\"/>"), ("a", "y")] := by
      rw [← of_decide_eq_true hentries]
      exact (Except.ok.inj ((occurrences_of_document hread "m.xml").symm.trans hfound)).symm
    refine ⟨document, _, hread, hparse found hfound, ?_, ?_, found, hlisted, hfirst⟩
    · rw [heq]
      decide +kernel
    · rw [heq]
      decide +kernel
  · have hread : ((Json.read? collidingKeys).bind Json.fields?).any fun fields =>
        fields.all (·.1 ≠ "") &&
          ofFields "" fields = [("a.b", "x"), ("a.b", "2"), ("a.c", "")] := by
      decide +kernel
    obtain ⟨fields, hsome, htests⟩ := (Option.any_eq_true _ _).1 hread
    obtain ⟨tree, hread, htree⟩ := Option.bind_eq_some_iff.1 hsome
    obtain rfl := Json.eq_object_of_fields? htree
    obtain ⟨hkeys, hfields⟩ := Bool.and_eq_true_iff.1 htests
    obtain ⟨-, hmap, hparse⟩ := parse_isFirstWins "m.json" "en" collidingKeys
    obtain ⟨found, hlisted, hfirst, hfound, hjson, -⟩ :=
      hmap fields fun field hfield => of_decide_eq_true (List.all_eq_true.1 hkeys field hfield)
    have heq : found = [("a.b", "x"), ("a.b", "2"), ("a.c", "")] := by
      rw [← of_decide_eq_true hfields]
      exact (Except.ok.inj hfound).symm
    refine ⟨fields, _, hread, hparse found (hjson hread), ?_, ?_, found, hlisted, hfirst⟩
    · rw [heq]
      decide +kernel
    · rw [heq]
      decide +kernel

end Dictionary

end XmlTemplate
