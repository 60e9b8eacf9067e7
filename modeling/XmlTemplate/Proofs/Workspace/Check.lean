import Mathlib.Algebra.GroupWithZero.Nat
import Mathlib.Data.List.Nodup
import XmlTemplate.Proofs.Dictionary.FirstWins
import XmlTemplate.Proofs.Path.Extension
import XmlTemplate.Workspace.Command

/-!
# Reports on dictionaries

A report adds up what is found in the dictionaries of a folder, one by one. The format that a file
is read in is told by what is left of its path behind the folder of its language. This is the format
of the file itself, with two exceptions: a file that is in no folder of a language has nothing left
that names a format, and a backslash before the point counts as a slash. Both are read as XML.
-/

namespace XmlTemplate

namespace Dictionary

/-- The format that an extension names; XML if it names none. -/
def Format.ofExtension : Option String → Format
  | some "yml" => .yaml
  | some "yaml" => .yaml
  | some "json" => .json
  | _ => .xml

theorem Format.ofFile_eq (file : String) : ofFile file = ofExtension (Path.extension? file) := rfl

/-- No keys are listed as duplicates just if none is repeated. -/
theorem duplicates_ofOccurrences_eq_nil_iff (file language : String)
    (occurrences : List (String × String)) :
    (ofOccurrences file language occurrences).duplicates = [] ↔
      (occurrences.map Prod.fst).Nodup := by
  induction occurrences using List.reverseRecOn with
  | nil => exact iff_of_true rfl List.nodup_nil
  | append_singleton occurrences o ih =>
    obtain ⟨key, text⟩ := o
    have hhas := (isFirstWins_ofOccurrences file language occurrences).has_iff key
    rw [ofOccurrences, List.foldl_append, List.foldl_cons, List.foldl_nil, ← ofOccurrences, insert]
    rw [List.map_append, List.map_cons, List.map_nil, List.nodup_append]
    split
    · rename_i hkey
      refine iff_of_false (by simp) ?_
      rintro ⟨-, -, hne⟩
      exact hne key (hhas.1 hkey) key (List.mem_singleton_self key) rfl
    · rename_i hkey
      have hnew : ∀ a ∈ occurrences.map Prod.fst, ∀ b ∈ [key], a ≠ b := by
        rintro a ha b hb rfl
        exact hkey (hhas.2 (List.mem_singleton.1 hb ▸ ha))
      rw [ih]
      exact ⟨fun h => ⟨h, List.nodup_singleton key, hnew⟩, fun h => h.1⟩

end Dictionary

namespace Workspace

open Dictionary (Format)

/-- A file below a folder with its path, content and time. -/
abbrev Found : Type := String × Content × Nat

-- ---------------------------------------------------------------------------
-- Adding up
-- ---------------------------------------------------------------------------

/-- Number of entries that parsing gives. -/
def entryCount : Except Fault Dictionary → Nat
  | .ok d => d.entries.length
  | .error _ => 0

/-- Repeated keys in the file at a path. -/
def repetitions (path : String) : Except Fault Dictionary → List (String × String)
  | .ok d => d.duplicates.map fun key => (path, key)
  | .error _ => []

/-- What is wrong with the file at a path. -/
def trouble? (path : String) : Except Fault Dictionary → Option (String × String)
  | .ok _ => none
  | .error fault => some (path, fault.message)

/-- The report adds up what parsing gives for each file, in the order of the files. -/
structure IsTally (parse : Found → Except Fault Dictionary) (found : List Found)
    (r : CheckReport) : Prop where
  files : r.files = found.length
  entries : r.entries = (found.map fun file => entryCount (parse file)).sum
  duplicates : r.duplicates = found.flatMap fun file => repetitions file.1 (parse file)
  errors : r.errors = found.filterMap fun file => trouble? file.1 (parse file)

/-- Parse a file in a format, under the name it has within the folder of its language. -/
def parseIn (format : String → Format) (file : Found) : Except Fault Dictionary :=
  let (language, name) := languageAndFile file.1
  (Dictionary.occurrences (format file.1) name file.2.1.shown).map
    (Dictionary.ofOccurrences name language)

/-- The format that a file is read in. -/
def heldFormat (path : String) : Format := .ofFile (languageAndFile path).2

/-- The format of the file itself. -/
def ownFormat (folder path : String) : Format := .ofFile (filePath folder path)

/-- The file has the extension of a dictionary. -/
def isDictionary (folder : String) (file : Found) : Bool :=
  (Path.extension? (filePath folder file.1)).any dictionaryExtensions.contains

/-- The dictionaries below a folder. -/
def dictionaries (folder : String) (files : Files) : List Found :=
  (files.below folder).filter (isDictionary folder)

variable {folder : String} {files : Files} {parse parse' : Found → Except Fault Dictionary}
  {found : List Found} {r : CheckReport}

/-- The report with one more file. -/
def CheckReport.add (r : CheckReport) (path : String) :
    Except Fault Dictionary → CheckReport
  | .ok d => { r with
      files := r.files + 1
      entries := r.entries + d.entries.length
      duplicates := r.duplicates ++ d.duplicates.map fun key => (path, key) }
  | .error fault => { r with
      files := r.files + 1
      errors := r.errors ++ [(path, fault.message)] }

theorem checkFile_eq (folder : String) (r : CheckReport) (file : Found) :
    checkFile folder r file =
      if isDictionary folder file then r.add file.1 (parseIn heldFormat file) else r := by
  obtain ⟨path, content, modified⟩ := file
  rw [checkFile, isDictionary]
  cases hextension : Path.extension? (filePath folder path) with
  | none => rfl
  | some extension =>
    simp only [Option.any_some]
    split
    · have hparse : parseIn heldFormat (path, content, modified) =
          Dictionary.parse (languageAndFile path).2 (languageAndFile path).1 content.shown := rfl
      rw [hparse]
      cases Dictionary.parse (languageAndFile path).2 (languageAndFile path).1 content.shown <;> rfl
    · rfl

theorem IsTally.empty : IsTally parse [] .empty := ⟨rfl, rfl, rfl, rfl⟩

theorem IsTally.add (h : IsTally parse found r) (file : Found) :
    IsTally parse (found ++ [file]) (r.add file.1 (parse file)) := by
  cases hparse : parse file with
  | ok d =>
    constructor <;> simp [CheckReport.add, hparse, h.files, h.entries, h.duplicates, h.errors,
      entryCount, repetitions, trouble?]
  | error fault =>
    constructor <;> simp [CheckReport.add, hparse, h.files, h.entries, h.duplicates, h.errors,
      entryCount, repetitions, trouble?]

theorem isTally_checkFolder (folder : String) (files : Files) :
    IsTally (parseIn heldFormat) (dictionaries folder files) (checkFolder folder files) := by
  unfold checkFolder dictionaries
  induction files.below folder using List.reverseRecOn with
  | nil => exact .empty
  | append_singleton found file ih =>
    rw [List.foldl_append, List.foldl_cons, List.foldl_nil, checkFile_eq, List.filter_append]
    split
    · rename_i hfile
      rw [List.filter_cons_of_pos hfile]
      exact ih.add file
    · rename_i hfile
      rw [List.filter_cons_of_neg hfile, List.filter_nil, List.append_nil]
      exact ih

/-- Only what the files give counts. -/
theorem IsTally.congr (h : IsTally parse found r)
    (heq : ∀ file ∈ found, parse file = parse' file) : IsTally parse' found r where
  files := h.files
  entries := by
    rw [h.entries]
    exact congrArg List.sum (List.map_congr_left fun file hfile => by rw [heq file hfile])
  duplicates := by
    rw [h.duplicates]
    exact List.flatMap_congr fun file hfile => by rw [heq file hfile]
  errors := by
    rw [h.errors]
    exact List.filterMap_congr fun file hfile => by rw [heq file hfile]

/-- A report is clean just if every file is parsed and none repeats a key. -/
theorem IsTally.isClean_iff (h : IsTally parse found r) :
    r.isClean ↔ ∀ file ∈ found, ∃ d, parse file = .ok d ∧ d.duplicates = [] := by
  simp only [CheckReport.isClean, h.duplicates, h.errors, Bool.and_eq_true, List.isEmpty_iff,
    List.flatMap_eq_nil_iff, List.filterMap_eq_nil_iff, ← forall_and]
  refine forall_congr' fun file => ?_
  cases parse file <;> simp [repetitions, trouble?]

-- ---------------------------------------------------------------------------
-- Formats
-- ---------------------------------------------------------------------------

/-- The file is in a folder, and no backslash is right before its last point. -/
def isPlaced (path : String) : Bool :=
  path.toList.contains '/' &&
    match Text.cutAtLast? (· == '.') path.toList with
    | some (before, _) => before.getLast? != some '\\'
    | none => true

/-- What the extensions of dictionaries have in common. -/
theorem of_mem_dictionaryExtensions {extension : String}
    (h : dictionaryExtensions.contains extension) : extension.toList ≠ [] ∧
      '/' ∉ extension.toList ∧ '.' ∉ extension.toList ∧ '\\' ∉ extension.toList := by
  simp only [dictionaryExtensions, List.contains_iff_mem, List.mem_cons, List.not_mem_nil,
    or_false] at h
  rcases h with rfl | rfl | rfl | rfl <;> decide

/-- The pieces of a file's path are the last pieces of its path from outside of the folder. -/
theorem exists_pieces_filePath {path : String} (h : Path.IsRelative path) (folder : String) :
    ∃ outer, Path.pieces (filePath folder path) = outer ++ Path.pieces path := by
  have hjoin (front : List Char) : Text.splitAt (· == '/') (front ++ '/' :: path.toList) =
      Text.splitAt (· == '/') front ++ Text.splitAt (· == '/') path.toList :=
    Text.splitAt_append rfl front path.toList
  have hne : (path == "") = false := by
    refine beq_eq_false_iff_ne.2 fun hnil => ?_
    have hpiece := h [] (by rw [hnil]; exact List.mem_singleton_self _)
    exact Bool.false_ne_true (hpiece.isIdle.symm.trans rfl)
  unfold filePath Path.within Path.pieces
  rw [if_neg (Bool.eq_false_iff.1 hne)]
  split
  · exact ⟨[], rfl⟩
  · split
    · rename_i hlast
      obtain ⟨front, hfront⟩ := List.getLast?_eq_some_iff.1 (eq_of_beq hlast)
      refine ⟨Text.splitAt (· == '/') front, ?_⟩
      rw [String.toList_append, hfront, List.append_assoc]
      exact hjoin front
    · refine ⟨Text.splitAt (· == '/') folder.toList, ?_⟩
      rw [String.toList_append, String.toList_append, List.append_assoc]
      exact hjoin folder.toList

/-- The path of a dictionary file: folders, the stem of its name, a point and its extension. -/
theorem exists_stem {path extension : String} (h : Path.IsRelative path)
    (hextension : Path.extension? (filePath folder path) = some extension) :
    ∃ lead stem, path.toList = lead ++ (stem ++ '.' :: extension.toList) ∧
      (lead = [] ∨ lead.getLast? = some '/') ∧ stem ≠ [] ∧
        '/' ∉ stem ++ '.' :: extension.toList := by
  obtain ⟨lead, inner, name, hpath, hslash, hlead, hpieces⟩ := Path.exists_lead path.toList
  have hinner : Path.pieces path = inner ++ [name] := by
    rw [← hpieces name hslash, ← hpath, String.ofList_toList]
  have hname : Path.IsName name := h name (by simp [hinner])
  obtain ⟨outer, houter⟩ := exists_pieces_filePath h folder
  rw [hinner, ← List.append_assoc] at houter
  obtain ⟨stem, hstem, rfl⟩ := Path.exists_stem_of_extension? houter hname hextension
  exact ⟨lead, stem, hpath, hlead, hstem, hslash⟩

/-- The text with slashes for backslashes. -/
def withSlashes (text : List Char) : List Char := text.map fun c => if c = '\\' then '/' else c

theorem withSlashes_append (front text : List Char) :
    withSlashes (front ++ text) = withSlashes front ++ withSlashes text := List.map_append ..

theorem withSlashes_eq_self {text : List Char} (h : '\\' ∉ text) : withSlashes text = text := by
  refine (List.map_congr_left fun c hc => if_neg ?_).trans text.map_id
  rintro rfl
  exact h hc

/-- What is left of a path behind the language still ends with its name, but for backslashes. -/
theorem exists_languageAndFile {path : String} {lead name : List Char}
    (hpath : path.toList = lead ++ name) (hlead : lead.getLast? = some '/') (hslash : '/' ∉ name) :
    ∃ inner, (languageAndFile path).2 = String.ofList (withSlashes (inner ++ name)) := by
  have hmem : '/' ∈ path.toList := hpath ▸ List.mem_append_left _ (List.mem_of_getLast? hlead)
  obtain ⟨⟨language, rest⟩, hcut⟩ :=
    Option.isSome_iff_exists.1 (Text.isSome_cutAt?_iff (p := (· == '/')).2 ⟨'/', hmem, rfl⟩)
  obtain ⟨c, hc, heq, -⟩ := Text.of_cutAt? hcut
  cases eq_of_beq hc
  have hfile : (languageAndFile path).2 = String.ofList (withSlashes rest) := by
    rw [languageAndFile, hcut]
    rfl
  rw [hpath, List.append_eq_append_iff] at heq
  rcases heq with ⟨front, -, hname⟩ | ⟨front, hlanguage, hrest⟩
  · exact absurd (hname ▸ List.mem_append_right _ (List.mem_cons_self ..)) hslash
  · cases front with
    | nil =>
      rw [List.nil_append] at hrest
      exact absurd (hrest ▸ List.mem_cons_self ..) hslash
    | cons c inner => exact ⟨inner, by rw [hfile, (List.cons.inj hrest).2]; rfl⟩

/-- Nothing is left of the path of a file that is in no folder. -/
theorem languageAndFile_of_notMem {path : String} (h : '/' ∉ path.toList) :
    (languageAndFile path).2 = "" := by
  have hcut : Text.cutAt? (· == '/') path.toList = none := by
    rw [← Option.not_isSome_iff_eq_none, Text.isSome_cutAt?_iff]
    rintro ⟨c, hmem, hc⟩
    exact h (eq_of_beq hc ▸ hmem)
  rw [languageAndFile, hcut]
  rfl

/-- A backslash at the end is a slash then. -/
theorem getLast?_withSlashes_iff {text : List Char} (h : '/' ∉ text) :
    (withSlashes text).getLast? = some '/' ↔ text.getLast? = some '\\' := by
  rw [withSlashes, List.getLast?_map]
  cases hlast : text.getLast? with
  | none => simp
  | some c =>
    have hc : c ≠ '/' := by
      rintro rfl
      exact h (List.mem_of_getLast? hlast)
    by_cases hback : c = '\\' <;> simp [hc, hback]

/-- A name with an extension has none behind a language just if its stem ends with a backslash. -/
theorem extension?_withSlashes {inner stem extension : List Char} (hstem : stem ≠ [])
    (hslash : '/' ∉ stem) (hne : extension ≠ [])
    (hextension : '/' ∉ extension ∧ '.' ∉ extension ∧ '\\' ∉ extension) :
    Path.extension? (String.ofList (withSlashes (inner ++ (stem ++ '.' :: extension)))) =
      if stem.getLast? = some '\\' then none else some (String.ofList extension) := by
  have hpieces : withSlashes (inner ++ (stem ++ '.' :: extension)) =
      withSlashes (inner ++ stem) ++ '.' :: extension := by
    rw [← List.append_assoc, withSlashes_append]
    exact congrArg (_ ++ '.' :: ·) (withSlashes_eq_self hextension.2.2)
  have hfront : withSlashes (inner ++ stem) ≠ [] := by simp [withSlashes, hstem]
  have hlast : (withSlashes (inner ++ stem)).getLast? = some '/' ↔ stem.getLast? = some '\\' := by
    rw [withSlashes_append, List.getLast?_append_of_ne_nil _ (by simpa [withSlashes] using hstem)]
    exact getLast?_withSlashes_iff hslash
  rw [hpieces, Path.extension?_append hne ⟨hextension.1, hextension.2.1⟩]
  simp [hfront, hlast]

/-- What is left of the path of a placed file behind the folder of its language has the extension
of the file. Of other files nothing is left that has one. -/
theorem extension?_languageAndFile {path extension : String} (h : Path.IsRelative path)
    (hextension : Path.extension? (filePath folder path) = some extension)
    (hmem : dictionaryExtensions.contains extension) :
    Path.extension? (languageAndFile path).2 = if isPlaced path then some extension else none := by
  obtain ⟨lead, stem, hpath, hlead, hstem, hslash⟩ := exists_stem h hextension
  obtain ⟨hne, hplain⟩ := of_mem_dictionaryExtensions hmem
  have hpoint : Text.cutAtLast? (· == '.') path.toList = some (lead ++ stem, extension.toList) := by
    rw [hpath, ← List.append_assoc]
    refine Text.cutAtLast?_append rfl (fun d hd => beq_eq_false_iff_ne.2 ?_) _
    rintro rfl
    exact hplain.2.1 hd
  have hplaced : isPlaced path = (path.toList.contains '/' && stem.getLast? != some '\\') := by
    rw [isPlaced, hpoint]
    simp only [List.getLast?_append_of_ne_nil lead hstem]
  rw [hplaced]
  rcases hlead with rfl | hlead
  · have hnone : '/' ∉ path.toList := hpath ▸ hslash
    rw [languageAndFile_of_notMem hnone, Bool.eq_false_iff.2 (mt List.contains_iff_mem.1 hnone)]
    rfl
  · obtain ⟨inner, hfile⟩ := exists_languageAndFile hpath hlead hslash
    have hmem : path.toList.contains '/' :=
      List.contains_iff_mem.2 (hpath ▸ List.mem_append_left _ (List.mem_of_getLast? hlead))
    have hnoslash : '/' ∉ stem := fun hin => hslash (List.mem_append_left _ hin)
    rw [hfile, extension?_withSlashes hstem hnoslash hne hplain, hmem, String.ofList_toList]
    by_cases hback : stem.getLast? = some '\\' <;> simp [hback]

/-- A dictionary is read in its own format just if it is placed; all others are read as XML. -/
theorem heldFormat_eq {file : Found} (hfile : file ∈ dictionaries folder files)
    (h : file.1 = "" ∨ Path.IsRelative file.1) :
    heldFormat file.1 = if isPlaced file.1 then ownFormat folder file.1 else .xml := by
  obtain ⟨-, hextension⟩ := List.mem_filter.1 hfile
  rw [isDictionary, Option.any_eq_true] at hextension
  obtain ⟨extension, hextension, hmem⟩ := hextension
  rw [heldFormat, ownFormat, Format.ofFile_eq, Format.ofFile_eq, hextension]
  rcases h with h | h
  · rw [h]
    rfl
  · rw [extension?_languageAndFile h hextension hmem]
    split <;> rfl

/-- The report on a folder is the tally of its dictionaries, each read in its own format if it is
in the folder of a language, and as XML otherwise. It is clean just if all are read and none
repeats a key. -/
theorem checkFolder_isTally (folder : String) (files : Files) :
    IsTally (parseIn heldFormat) (dictionaries folder files) (checkFolder folder files) ∧
      (∀ file ∈ dictionaries folder files, file.1 = "" ∨ Path.IsRelative file.1 →
        heldFormat file.1 = if isPlaced file.1 then ownFormat folder file.1 else .xml) ∧
      ((∀ file ∈ dictionaries folder files, Path.IsRelative file.1 ∧
          (isPlaced file.1 ∨ ownFormat folder file.1 = .xml)) →
        IsTally (parseIn (ownFormat folder)) (dictionaries folder files)
          (checkFolder folder files)) ∧
      ((checkFolder folder files).isClean ↔ ∀ file ∈ dictionaries folder files, ∃ occurrences,
        Dictionary.occurrences (heldFormat file.1) (languageAndFile file.1).2 file.2.1.shown =
            .ok occurrences ∧
          (occurrences.map Prod.fst).Nodup) := by
  have htally := isTally_checkFolder folder files
  refine ⟨htally, fun file hfile h => heldFormat_eq hfile h, fun hplaced => ?_, ?_⟩
  · refine htally.congr fun file hfile => ?_
    obtain ⟨hrelative, hformat⟩ := hplaced file hfile
    have hheld := heldFormat_eq hfile (.inr hrelative)
    have hsame : heldFormat file.1 = ownFormat folder file.1 := by
      rcases hformat with hformat | hformat
      · rw [hheld, if_pos hformat]
      · rw [hheld, hformat, ite_self]
    rw [parseIn, parseIn, hsame]
  · rw [htally.isClean_iff]
    refine forall₂_congr fun file _ => ?_
    simp only [parseIn]
    cases Dictionary.occurrences (heldFormat file.1) (languageAndFile file.1).2 file.2.1.shown with
    | error fault => simp [Except.map]
    | ok occurrences =>
      simp [Except.map, Dictionary.duplicates_ofOccurrences_eq_nil_iff]

/-- A tree with a dictionary in the folder of a language, and XML beside that folder. -/
def placedFiles : Files :=
  ⟨[("lang", .folder), ("lang/fr", .folder), ("lang/fr/site.json", .file (.text "{}") 1),
    ("lang/page.xml", .file (.text "<d/>") 1)]⟩

theorem checkFolder_isTally_placedFiles :
    (dictionaries "lang" placedFiles).length = 2 ∧
    (∀ file ∈ dictionaries "lang" placedFiles, Path.IsRelative file.1 ∧
      (isPlaced file.1 ∨ ownFormat "lang" file.1 = .xml)) ∧
    IsTally (parseIn (ownFormat "lang")) (dictionaries "lang" placedFiles)
      (checkFolder "lang" placedFiles) := by
  have hplaced : ∀ file ∈ dictionaries "lang" placedFiles, Path.IsRelative file.1 ∧
      (isPlaced file.1 ∨ ownFormat "lang" file.1 = .xml) := by decide
  exact ⟨by decide, hplaced, (checkFolder_isTally "lang" placedFiles).2.2.1 hplaced⟩

/-- Beside the folders of languages every dictionary is read as XML. -/
example : heldFormat "menu.json" = .xml ∧ ownFormat "lang" "menu.json" = .json := by decide

end Workspace

end XmlTemplate
