import Mathlib.Data.List.Induction
import XmlTemplate.Proofs.Cache.Entry
import XmlTemplate.Proofs.Cache.Payload

/-!
# Runs of a cache

A cache is stored to, read and cleared, while its files are damaged in between. What is read for a
source is what the last change of the file of this source left there, if this change was a store
for the same source and time. Names of files may be shared: a store for another source is a change
like any other.
-/

namespace XmlTemplate

namespace Cache

variable {cache : Cache} {kind kind' : Kind} {key key' : String} {modified : Nat}
  {files files' : Files} {p : kind.Payload}

-- ---------------------------------------------------------------------------
-- Steps
-- ---------------------------------------------------------------------------

/-- What happens to a cache. -/
inductive Step where
  | store (kind : Kind) (key : String) (payload : kind.Payload) (modified : Nat)
  | load (kind : Kind) (key : String) (modified : Nat)
  | clear
  /-- Some other content gets into the file of an entry. -/
  | replace (kind : Kind) (key : String) (content : Content) (modified : Nat)
  /-- The document in the file of an entry loses a field. -/
  | strip (kind : Kind) (key field : String) (modified : Nat)
  /-- The folder of a kind is lost. -/
  | lose (kind : Kind)
  /-- A file takes the place of the folder of a kind. -/
  | block (kind : Kind) (content : Content) (modified : Nat)
  /-- The file in place of the folder of a kind goes away. -/
  | unblock (kind : Kind)

namespace Step

/-- The files after a step. What cannot be done changes nothing. -/
def run (cache : Cache) (files : Files) : Step → Files
  | store kind key payload modified =>
    cache.store kind ⟨key, modified, kind.toJson payload⟩ files
  | load .. => files
  | clear => (cache.clear files).1
  | replace kind key content modified =>
    (files.write? (cache.entryPath kind key) content modified).getD files
  | strip kind key field modified =>
    ((files.file? (cache.entryPath kind key)).bind fun (content, _) =>
      (without? field content).bind fun content =>
        files.write? (cache.entryPath kind key) content modified).getD files
  | lose kind => (files.removeFolder? (cache.kindPath kind)).getD files
  | block kind content modified =>
    (files.write? (cache.kindPath kind) content modified).getD files
  | unblock kind => (files.remove? (cache.kindPath kind)).getD files

/-- Payloads are exact in their stored form, and damage leaves no entry. -/
def Sound : Step → Prop
  | store kind _ payload modified =>
    kind.ofDraft? (.ofJson 1 (kind.toJson payload)) = some payload ∧ modified ≤ maxStored
  | replace kind _ content _ => entryIn? kind content = none
  | strip _ _ field _ => field ∈ entryFields
  | _ => True

end Step

/-- The files after some steps. -/
def run (cache : Cache) (steps : List Step) (files : Files) : Files :=
  steps.foldl (Step.run cache) files

/-- The file of a source stays as it is, or it is left without an entry or with the one that a step
stores. -/
def Step.Leaves (cache : Cache) (files : Files) (step : Step) (files' : Files) : Prop :=
  ∀ kind key, files'.file? (cache.entryPath kind key) = files.file? (cache.entryPath kind key) ∨
    entryOf? kind (files'.file? (cache.entryPath kind key)) = none ∨
    ∃ key' p modified, step = .store kind key' p modified ∧
      entryOf? kind (files'.file? (cache.entryPath kind key)) = some ⟨key', modified, p⟩

variable {trail : List String} {base : String}

namespace LiesAt

variable (h : cache.LiesAt trail base)

include h

end LiesAt

variable {steps : List Step} {step last : Step}

end Cache

end XmlTemplate
