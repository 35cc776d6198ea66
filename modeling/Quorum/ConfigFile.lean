import Quorum.Json.Forms

namespace Quorum

/-- Why no settings were read from a file. -/
inductive ConfigFileError where
  /-- There is no such file, or it is no text. -/
  | unreadable
  /-- The text is no JSON form of settings. -/
  | malformed
  | invalid (error : ConfigError)
  deriving DecidableEq

namespace Config

/-- Reads and checks the settings that a text holds. -/
def ofText (text : String) : Except ConfigFileError Config :=
  match (Json.parse? text).bind ofJson? with
  | none => .error .malformed
  | some config =>
    match config.validate with
    | .ok () => .ok config
    | .error error => .error (.invalid error)

/-- Reads and checks the settings in the content of a file, if there is the file. -/
def ofFile (content : Option ByteArray) : Except ConfigFileError Config :=
  match content.bind String.fromUTF8? with
  | none => .error .unreadable
  | some text => ofText text

end Config

end Quorum
