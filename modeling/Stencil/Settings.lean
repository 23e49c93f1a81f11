import Stencil.Settings.Value
import Stencil.Template.Directive

namespace Stencil

structure CacheSettings where
  templateDir : Text
  cacheDir : Text
  extension : Text
  precompiled : Bool
  deriving DecidableEq, Repr

structure Settings where
  debug : Bool
  compiler : Template.Options
  cache : CacheSettings
  deriving DecidableEq, Repr

namespace Settings

def standard : Settings where
  debug := false
  compiler := ⟨[], true⟩
  cache := ⟨"templates".toList, "cache".toList, "html".toList, false⟩

/-- A setting by its name: the fallback if there is none, and nothing if it does not convert. -/
def setting? {α : Type} (convert : Value → Option α) (fallback : α) (name : String)
    (fields : Fields) : Option α :=
  match Fields.get? name.toList fields with
  | none => some fallback
  | some value => convert value

def table? (name : String) (fields : Fields) : Option Fields :=
  match Fields.get? name.toList fields with
  | none => some []
  | some (.table inner) => some inner
  | some _ => none

def ofFields? (fields : Fields) : Option Settings := do
  let debug ← setting? Value.toBoolean? standard.debug "debug" fields
  let compiler ← table? "compiler" fields
  let directivePrefix ←
    setting? Value.toText? standard.compiler.directivePrefix "directive_prefix" compiler
  let dotAccess ← setting? Value.toBoolean? standard.compiler.dotAccess "dot_access" compiler
  let cache ← table? "cache" fields
  let templateDir ← setting? Value.toText? standard.cache.templateDir "template_dir" cache
  let cacheDir ← setting? Value.toText? standard.cache.cacheDir "cache_dir" cache
  let extension ← setting? Value.toText? standard.cache.extension "extension" cache
  let precompiled ← setting? Value.toBoolean? standard.cache.precompiled "precompiled" cache
  some ⟨debug, ⟨directivePrefix, dotAccess⟩, ⟨templateDir, cacheDir, extension, precompiled⟩⟩

end Settings

end Stencil
