import XmlTemplate.Render.Page
import XmlTemplate.Workspace.Config

/-!
# Workspaces

A workspace is a folder of templates and dictionaries with a configuration. Opening it makes an
engine on its folders; commands use this engine.
-/

namespace XmlTemplate

/-- An opened workspace. -/
structure Workspace where
  config : Config
  engine : Engine

namespace Workspace

/-- Name of the configuration in the base folder. -/
def configFile : String := "figdice.yml"

/-- The engine of a configuration. `entryName` names the files of the cache. -/
def engineOf (entryName : String → String) (now : Int) (c : Config) : Engine :=
  { Engine.default with
    lead := c.lead
    language := c.language
    source := .folder c.templateRoot
    dictionaries := .folder c.translationPath
    cache := c.cacheFolder.map fun folder => ⟨folder, entryName⟩
    constants := c.constants.map fun (name, j) => (name, Value.ofJson j)
    now := now }

/-- Open the workspace in a base folder, with its own configuration or the one at a path. -/
def start (base : String) (config : Option String) (now : Int) (files : Files) :
    Except Trouble Workspace :=
  match Config.load (config.getD (Path.within base configFile)) files with
  | .error trouble => .error trouble
  | .ok c =>
    let c := c.relativeTo base
    .ok ⟨c, engineOf Cache.digest now c⟩

end Workspace

end XmlTemplate
