import Montage.Command.ConcatList
import Montage.ContentHash
import Montage.Encode.Composition
import Montage.Service.Request

/-!
Answers about what is rendered: sound, compositions, commands and hashes.
-/

namespace Montage.Service

variable (report : Failure → Value)

/-- The sound of slices: a mix or a sequence. -/
def audio (input : Value) : Result Value := do
  let slices ← (items (field input "slices")).mapM sliceOf
  let settings ← settingsOf (field input "settings")
  let duration ← doubleOf (field input "duration")
  let (output, graph) ←
    if textOf (field input "kind") = "sequence" then do
      let r : String × FilterGraph Double ← addAudioSequence settings duration slices {}
      pure (some r.1, r.2)
    else
      let silent := flagOr true (field input "silent_audio")
      (liftM (addAudioMix settings duration silent slices {}) :
        Result (Option String × FilterGraph Double))
  let text : String ← graph.print
  return .object [("output", Json.ofText? output), ("graph", .text text)]

/-- The command of a job of the encoder. -/
def command (input : Value) : Result Value := do
  match textOf (field input "kind") with
  | "preview" =>
    let composition ← composeOf (field input "compile")
    let encoder ← encoderOf input
    let command : List String ← (liftM (previewCommand encoder composition
      (textOf (field input "output_path")) (profileOf .chunk (field input "profile"))
      (flagOr true (field input "progress"))) : Result (List String))
    return Json.ofTexts command
  | "export" =>
    let composition ← composeOf (field input "compile")
    let settings ← checked (Decode.exportOptions (field input "export"))
    let encoder ← encoderOf input
    let command : List String ← (liftM (exportCommand encoder composition settings) :
      Result (List String))
    return Json.ofTexts command
  | "proxy" =>
    let scale ← match field input "scale" with
      | .null => pure (Double.ofDecimal false 5 (-1))
      | j => doubleOf j
    let encoder ← encoderOf input
    return Json.ofTexts (proxyCommand encoder (textOf (field input "source_path"))
      (textOf (field input "proxy_path")) scale (profileOf .proxy (field input "profile")))
  | "concat" =>
    return Json.ofTexts (concatCommand (← encoderOf input) (textOf (field input "list_path"))
      (textOf (field input "output_path")))
  | _ => return .text (ConcatList.write (texts (field input "paths")))

/-- The hashes of windows and of a whole timeline. -/
def hashes (input : Value) : Result Value := do
  let timeline ← timelineOf input
  let media ← mediaOf (field input "media")
  let settings ← settingsOf (field input "settings")
  let access := accessOf input media (flagOr true (field input "use_proxies"))
  let chunks := (items (field input "windows")).map fun given => shown report do
    return .text (ContentHash.ofWindow timeline access (← windowOf given))
  let whole := shown report do
    let duration ← optionalDouble (field input "duration")
    return .text (ContentHash.ofTimeline timeline settings duration)
  return .object [("chunks", .list chunks), ("timeline", whole)]

end Montage.Service
