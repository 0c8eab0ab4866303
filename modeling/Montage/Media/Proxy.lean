import Montage.Command.Basic
import Montage.Run.Encoder

/-!
Proxies: smaller copies of videos that previews read instead. Every media item has one place for
its proxy; a file that is there is used as it is, and one whose making failed is removed.
-/

namespace Montage

/-- How proxies are made. -/
structure ProxyMaker where
  folder : Path
  scale : Double
  encoderPath : String

/-- What became of a proxy. -/
structure ProxyOutcome where
  mediaId : String
  success : Bool
  path : Option String := none
  error : Option String := none
  cancelled : Bool := false
  /-- Whether the file was there before. -/
  skipped : Bool := false

namespace MediaFile

/-- The item with another proxy, or with none. -/
def setProxy (item : MediaFile) (path : Option String) : MediaFile :=
  { item with proxyPath := path }

/-- Whether an item is a video whose proxy is not there. -/
def lacksProxy (item : MediaFile) (pathExists : PathExists) : Bool :=
  item.type = .video && !(item.proxy?.map pathExists).getD false

/-- The item without a proxy that is not there. -/
def dropLostProxy (item : MediaFile) (pathExists : PathExists) : MediaFile :=
  if (item.proxy?.map pathExists).getD true then item else item.setProxy none

end MediaFile

/-- The items without proxies that are not there. -/
def MediaLibrary.dropLostProxies (media : MediaLibrary) (pathExists : PathExists) :
    MediaLibrary :=
  media.map fun (key, item) => (key, item.dropLostProxy pathExists)

namespace ProxyMaker

/-- The keys of the jobs that make proxies start with this. -/
def keyStart : String := "proxy-"

/-- The key of the job that makes the proxy of an item. -/
def keyFor (mediaId : String) : String := keyStart ++ mediaId

/-- A maker of proxies; what is left out, or zero, is configured. -/
def create (config : Config) (folder : Option String) (scale : Option Double) : ProxyMaker where
  folder := Path.ofText ((folder.filter (· ≠ "")).getD config.proxyDir)
  scale := (scale.filter (!·.isZero)).getD config.proxyScale
  encoderPath := config.encoderPath

/-- The place of the proxy of an item. -/
def pathFor (maker : ProxyMaker) (mediaId : String) : Path :=
  maker.folder.join (mediaId ++ "_proxy.mp4")

variable {σ : Type}

/-- Removes the file of a proxy whose making failed, and reports why. -/
def giveUp (maker : ProxyMaker) (item : MediaFile) (cancelled : Bool) (error : Option String) :
    SceneAction σ ProxyOutcome := do
  SceneAction.onFiles fun files => files.remove (maker.pathFor item.id).text
  return { mediaId := item.id, success := false, cancelled, error }

/-- Makes the proxy of an item, unless its file is there. -/
def make (maker : ProxyMaker) (controls : JobControls σ)
    (onUpdate : EncoderProgress → SceneAction σ Unit) (item : MediaFile) :
    SceneAction σ ProxyOutcome := do
  let path := (maker.pathFor item.id).text
  if (← SceneAction.station).files.pathExists path then
    return { mediaId := item.id, success := true, path := some path, skipped := true }
  SceneAction.onFiles fun files => files.makeFolders maker.folder
  let result ← SceneAction.run {
    key := some (keyFor item.id), controls, onUpdate
    duration := if item.duration.isZero then none else some item.duration }
    (proxyCommand maker.encoderPath item.path path maker.scale .proxy)
  if result.cancelled then maker.giveUp item true (some "Cancelled")
  else if !result.success then maker.giveUp item false result.error
  else return { mediaId := item.id, success := true, path := some path }

end ProxyMaker

end Montage
