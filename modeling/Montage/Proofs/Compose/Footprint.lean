import Montage.Proofs.Compose.Layers

/-!
# What a composition reads

An overlay composition reads little of a timeline: of each clip that meets the window, its times, its
file, and how its track takes part. Two timelines of which the same is read, clip by clip in the order
of the layers, have the same composition but for the wording of complaints; and all that can go wrong
with a composition is that there is nothing to render, or that the delay of a sound is no number of
milliseconds.

## Main definitions

* `Footprint` — what is read of a clip on its track
* `Slice.Alike`, `Composition.Alike` — the same slices and compositions, as far as anyone can see

## Main results

* `composeOverlay_alike` — the same footprints make the same composition
* `composeOverlay_fails` — why there may be no composition
-/

namespace Montage

variable {τ : Type} [Scalar τ]

/-- What a composition reads of a clip on its track; of a file it is the id, the type and the path. -/
structure Footprint (τ : Type) where
  kind : TrackKind
  active : Bool
  volume : τ
  start : τ
  duration : τ
  mediaIn : τ
  enabled : Bool
  file : Option (String × MediaType × String)

/-- The file that a clip reads. -/
def MediaAccess.file? (access : MediaAccess) (clip : Clip τ) : Option (String × MediaType × String) :=
  (access.media.find? clip.mediaId).map fun item =>
    (item.id, item.type, item.resolvedPath access.useProxies access.pathExists)

/-- What a composition reads of a clip on its track. -/
def footprint (access : MediaAccess) (entry : Track τ × Clip τ) : Footprint τ where
  kind := entry.1.kind
  active := entry.1.active
  volume := entry.1.volume
  start := entry.2.start
  duration := entry.2.duration
  mediaIn := entry.2.mediaIn
  enabled := entry.2.enabled
  file := access.file? entry.2

/-- The clips that meet a window, each with its track. -/
def Window.cast (window : Window τ) (tracks : List (Track τ)) : List (Track τ × Clip τ) :=
  tracks.flatMap fun track => (track.clips.filter window.meets).map fun clip => (track, clip)

/-- The same is read of two clips on their tracks. -/
def SameFootprint (access access' : MediaAccess) (a b : Track τ × Clip τ) : Prop :=
  footprint access a = footprint access' b

/-! ### Slices -/

/-- Filters tell two slices not apart. -/
structure Slice.Alike (a b : Slice τ) : Prop where
  type : a.media.type = b.media.type
  localStart : a.localStart = b.localStart
  localStop : a.localStop = b.localStop
  sourceIn : a.sourceIn = b.sourceIn
  sourceOut : a.sourceOut = b.sourceOut
  inputIndex : a.inputIndex = b.inputIndex
  volume : a.volume = b.volume

/-- The same inputs, and as many complaints. -/
structure Gathered.Alike (a b : Gathered) : Prop where
  inputs : a.inputs = b.inputs
  diagnostics : a.diagnostics.length = b.diagnostics.length

variable {access access' : MediaAccess} {window : Window τ}

/-- The same file joins the same inputs. -/
theorem Gathered.Alike.inputFor {gathered gathered' : Gathered} (alike : gathered.Alike gathered')
    {item item' : MediaFile} (id : item.id = item'.id)
    (path : item.resolvedPath access.useProxies access.pathExists =
      item'.resolvedPath access'.useProxies access'.pathExists) :
    (gathered.inputFor access item).1 = (gathered'.inputFor access' item').1 ∧
      (gathered.inputFor access item).2.Alike (gathered'.inputFor access' item').2 := by
  unfold Gathered.inputFor
  rw [alike.inputs, id, path]
  split
  · exact ⟨rfl, alike⟩
  · exact ⟨rfl, rfl, alike.diagnostics⟩

namespace Slice

/-- Clips with the same times have the same slices. -/
theorem ofClip?_alike {clip clip' : Clip τ} {item item' : MediaFile} (start : clip.start = clip'.start)
    (duration : clip.duration = clip'.duration) (mediaIn : clip.mediaIn = clip'.mediaIn)
    (type : item.type = item'.type) :
    Option.Rel Alike (ofClip? clip item window) (ofClip? clip' item' window) := by
  have stop : clip.stop = clip'.stop := by rw [Clip.stop, Clip.stop, start, duration]
  unfold ofClip? Window.meets
  rw [start, stop, mediaIn]
  split
  · dsimp only
    split
    · exact .none
    · exact .some ⟨type, rfl, rfl, rfl, rfl, rfl, rfl⟩
  · exact .none

section Gather

variable {skipImages : Bool} {gathered gathered' : Gathered}

/-- The same is gathered from clips of which the same is read. -/
theorem gatherClip_alike {track track' : Track τ} {clip clip' : Clip τ}
    (same : SameFootprint access access' (track, clip) (track', clip'))
    (alike : gathered.Alike gathered') :
    List.Forall₂ Alike (gatherClip access window skipImages track clip gathered).1.toList
        (gatherClip access' window skipImages track' clip' gathered').1.toList ∧
      (gatherClip access window skipImages track clip gathered).2.Alike
        (gatherClip access' window skipImages track' clip' gathered').2 := by
  obtain ⟨-, -, volume, start, duration, mediaIn, enabled, file⟩ := Footprint.mk.inj same
  have stop : clip.stop = clip'.stop := by
    rw [Clip.stop, Clip.stop]
    exact congrArg₂ _ start duration
  have meets : window.meets clip = window.meets clip' := by
    unfold Window.meets
    exact congrArg₂ _ start stop
  unfold gatherClip
  rw [show clip.enabled = clip'.enabled from enabled, meets]
  split
  · exact ⟨.nil, alike⟩
  · -- Both clips find a file, or neither does.
    unfold MediaAccess.file? at file
    cases found : access.media.find? clip.mediaId with
    | none =>
      cases found' : access'.media.find? clip'.mediaId with
      | none => exact ⟨.nil, alike.inputs, by simp [Gathered.complain, alike.diagnostics]⟩
      | some item' => simp [found, found'] at file
    | some item =>
      cases found' : access'.media.find? clip'.mediaId with
      | none => simp [found, found'] at file
      | some item' =>
        simp only [found, found', Option.map_some, Option.some.injEq, Prod.mk.injEq] at file
        obtain ⟨id, type, path⟩ := file
        dsimp only
        rw [type]
        split
        · exact ⟨.nil, alike⟩
        · have sliced : Option.Rel Alike (ofClip? clip item window) (ofClip? clip' item' window) :=
            ofClip?_alike start duration mediaIn type
          obtain ⟨index, joined⟩ := alike.inputFor id path
          generalize ofClip? clip item window = slice?, ofClip? clip' item' window = slice?' at sliced
          cases sliced with
          | none => exact ⟨.nil, alike⟩
          | some slices =>
            refine ⟨.cons ?_ .nil, joined⟩
            exact ⟨slices.type, slices.localStart, slices.localStop, slices.sourceIn,
              slices.sourceOut, congrArg Int.ofNat index, volume⟩

/-- A clip that does not meet the window leaves no trace. -/
theorem gatherClips_filter (clips : List (Track τ × Clip τ)) (gathered : Gathered) :
    gatherClips access window skipImages (clips.filter fun entry => window.meets entry.2) gathered =
      gatherClips access window skipImages clips gathered := by
  induction clips generalizing gathered with
  | nil => rfl
  | cons entry rest ih =>
    obtain ⟨track, clip⟩ := entry
    by_cases meets : window.meets clip = true
    · simp only [List.filter_cons, meets, if_true, gatherClips, ih]
    · -- Such a clip is passed over before anything is said of its file.
      have skipped : gatherClip access window skipImages track clip gathered = (none, gathered) := by
        unfold gatherClip
        rw [if_pos (by simp [meets])]
      rw [List.filter_cons, if_neg meets, gatherClips, skipped, ih]
      rfl

theorem gatherClips_alike {clips clips' : List (Track τ × Clip τ)}
    (same : List.Forall₂ (SameFootprint access access') clips clips')
    (alike : gathered.Alike gathered') :
    List.Forall₂ Alike (gatherClips access window skipImages clips gathered).1
        (gatherClips access' window skipImages clips' gathered').1 ∧
      (gatherClips access window skipImages clips gathered).2.Alike
        (gatherClips access' window skipImages clips' gathered').2 := by
  induction same generalizing gathered gathered' with
  | nil => exact ⟨.nil, alike⟩
  | @cons entry entry' rest rest' first _ ih =>
    obtain ⟨slices, alike⟩ := gatherClip_alike first alike
    obtain ⟨slices', alike⟩ := ih alike
    exact ⟨List.rel_append slices slices', alike⟩

/-- The slices of tracks are those of the clips on them that meet the window. -/
theorem gather_eq (tracks : List (Track τ)) (gathered : Gathered) :
    gather access window skipImages tracks gathered =
      gatherClips access window skipImages (window.cast tracks) gathered := by
  have meeting : window.cast tracks =
      (tracks.flatMap fun track => track.clips.map fun clip => (track, clip)).filter
        fun entry => window.meets entry.2 := by
    unfold Window.cast
    rw [List.filter_flatMap]
    refine List.flatMap_congr fun track _ => ?_
    rw [List.filter_map]
    rfl
  rw [gather, meeting, gatherClips_filter]

/-- The same slices are gathered from tracks of which the same is read in the window. -/
theorem gather_alike (skipImages : Bool) {tracks tracks' : List (Track τ)}
    (same : List.Forall₂ (SameFootprint access access') (window.cast tracks) (window.cast tracks'))
    (alike : gathered.Alike gathered') :
    List.Forall₂ Alike (gather access window skipImages tracks gathered).1
        (gather access' window skipImages tracks' gathered').1 ∧
      (gather access window skipImages tracks gathered).2.Alike
        (gather access' window skipImages tracks' gathered').2 := by
  rw [gather_eq, gather_eq]
  exact gatherClips_alike same alike

end Gather

section Filters

variable {a b : Slice τ}

theorem Alike.videoFilters (alike : a.Alike b) (settings : OutputFormat τ) (offset : τ) :
    a.videoFilters settings offset = b.videoFilters settings offset := by
  unfold Slice.videoFilters trimFilters Slice.duration
  rw [alike.type, alike.localStart, alike.localStop, alike.sourceIn, alike.sourceOut]

theorem Alike.audioFilters (alike : a.Alike b) (settings : OutputFormat τ) :
    a.audioFilters settings = b.audioFilters settings := by
  unfold Slice.audioFilters
  rw [alike.volume, alike.sourceIn, alike.sourceOut]

theorem Alike.pad (alike : a.Alike b) (stream : String) : a.pad stream = b.pad stream := by
  unfold Slice.pad
  rw [alike.inputIndex]

end Filters

end Slice

/-! ### Graphs -/

section Graphs

variable (settings : OutputFormat τ) {slices slices' : List (Slice τ)}

theorem addOverlays_alike (alike : List.Forall₂ Slice.Alike slices slices') (canvas : String)
    (graph : FilterGraph τ) :
    addOverlays settings slices canvas graph = addOverlays settings slices' canvas graph := by
  induction alike generalizing canvas graph with
  | nil => rfl
  | cons first _ ih =>
    simp only [addOverlays, first.pad, first.localStart, first.localStop, first.videoFilters, ih]

theorem addMixBranches_alike (alike : List.Forall₂ Slice.Alike slices slices') (duration : τ)
    (graph : FilterGraph τ) :
    addMixBranches settings duration slices graph =
      addMixBranches settings duration slices' graph := by
  induction alike generalizing graph with
  | nil => rfl
  | cons first _ ih =>
    simp only [addMixBranches, first.pad, first.localStart, first.audioFilters, ih]

theorem addAudioMix_alike (alike : List.Forall₂ Slice.Alike slices slices') (duration : τ)
    (silentAudio : Bool) (graph : FilterGraph τ) :
    addAudioMix settings duration silentAudio slices graph =
      addAudioMix settings duration silentAudio slices' graph := by
  unfold addAudioMix
  rw [addMixBranches_alike settings alike]

end Graphs

/-- The graph of a window with some slices, and the label of its sound. -/
def overlayGraph (settings : OutputFormat τ) (duration : τ) (silentAudio : Bool)
    (videoSlices audioSlices : List (Slice τ)) :
    Except ComposeError (Option String × FilterGraph τ) := do
  let graph ← addBackground {} settings duration
  let (canvas, graph) ← addOverlays settings videoSlices baseLabel graph
  let graph ← addVideoOutput graph canvas
  addAudioMix settings duration silentAudio audioSlices graph

theorem overlayGraph_alike (settings : OutputFormat τ) (duration : τ) (silentAudio : Bool)
    {videoSlices videoSlices' audioSlices audioSlices' : List (Slice τ)}
    (video : List.Forall₂ Slice.Alike videoSlices videoSlices')
    (audio : List.Forall₂ Slice.Alike audioSlices audioSlices') :
    overlayGraph settings duration silentAudio videoSlices audioSlices =
      overlayGraph settings duration silentAudio videoSlices' audioSlices' := by
  unfold overlayGraph
  simp only [addOverlays_alike settings video, addAudioMix_alike settings audio]

/-- A composition is what was gathered, with the graph of the slices. -/
theorem composeOverlay_eq (timeline : Timeline τ) (access : MediaAccess) (settings : OutputFormat τ)
    (window : Window τ) (silentAudio : Bool) :
    composeOverlay timeline access settings window silentAudio =
      let video := Slice.gather access window false timeline.layersFromBottom {}
      let audio := Slice.gather access window true timeline.heardTracks video.2
      if window.duration ≤ Scalar.zero && video.1.isEmpty && audio.1.isEmpty then
        .error .nothingToRender
      else (overlayGraph settings window.duration silentAudio video.1 audio.1).map fun made => {
        inputs := audio.2.inputs, graph := made.2, duration := window.duration
        videoOutput := videoLabel, audioOutput := made.1, diagnostics := audio.2.diagnostics } := by
  unfold composeOverlay overlayGraph
  dsimp only
  generalize Slice.gather access window false timeline.layersFromBottom {} = video
  generalize Slice.gather access window true timeline.heardTracks video.2 = audio
  split
  · rfl
  · -- Stage by stage, both sides fail where the other does.
    dsimp only [bind, Except.bind]
    cases addBackground {} settings window.duration with
    | error cause => rfl
    | ok graph =>
      dsimp only [liftM_graph_ok]
      cases addOverlays settings video.1 baseLabel graph with
      | error cause => rfl
      | ok laid =>
        dsimp only [liftM_graph_ok]
        cases addVideoOutput laid.2 laid.1 with
        | error cause => rfl
        | ok graph => cases addAudioMix settings window.duration silentAudio audio.1 graph <;> rfl

/-! ### Failures -/

section Failures

variable {settings : OutputFormat τ} {graph : FilterGraph τ} {names : List String}

/-- Branches can always be added, unless a delay is no number of milliseconds. -/
theorem addMixBranches_yields (settings : OutputFormat τ) (duration : τ) (slices : List (Slice τ))
    (tidy : graph.Tidy names) :
    Yields (addMixBranches settings duration slices graph)
      (fun failure => ∃ number, failure = .number number)
      fun made => made.2.Tidy names ∧ graph.Extends made.2 := by
  induction slices generalizing graph with
  | nil => exact ⟨tidy, .refl graph⟩
  | cons slice rest ih =>
    rw [addMixBranches]
    cases Scalar.round (slice.localStart * Scalar.whole 1000) with
    | error number => exact ⟨number, rfl⟩
    | ok delay =>
      refine Yields.bind (show Yields (liftM (Except.ok delay : Except NumberError Int)) _
        (· = delay) from rfl) ?_
      rintro _ rfl
      refine Yields.bind (Yields.lift_graph (tidy.gives_fresh (by decide : Wordy "a")
        [slice.pad "a"] (by simp))) ?_
      rintro branched ⟨tidy, grows, -⟩
      refine Yields.bind (ih tidy) ?_
      rintro made ⟨tidy, grows'⟩
      exact ⟨tidy, grows.trans grows'⟩

/-- The mix of branches can always be added, and leaves what is there as it is. -/
theorem addAudioMix_yields (settings : OutputFormat τ) (duration : τ) (silentAudio : Bool)
    (slices : List (Slice τ)) (tidy : graph.Tidy names) (unused : audioLabel ∉ names) :
    Yields (addAudioMix settings duration silentAudio slices graph)
      (fun failure => ∃ number, failure = .number number)
      fun made => graph.Extends made.2 := by
  refine Yields.bind (addMixBranches_yields settings duration slices tidy) ?_
  rintro ⟨branches, mixed⟩ ⟨tidy, grows⟩
  -- With all branches there, their mix can be added under its word.
  have last (inputs : List String) {filters : List (Filter τ)} (filled : filters ≠ []) :
      Yields (liftM (mixed.add inputs filters audioLabel) : Except ComposeError (FilterGraph τ))
        (fun failure => ∃ number, failure = .number number) (graph.Extends ·) :=
    Yields.lift_graph ((tidy.gives_add (by decide : Wordy audioLabel) unused inputs filled).imp
      (fun _ => id) fun _ h => grows.trans h.2.1)
  rcases branches with _ | ⟨branch, _ | ⟨next, rest⟩⟩
  · cases silentAudio with
    | false => exact grows
    | true => exact Yields.bind (last [] (by simp [silenceFilters])) fun _ => id
  · exact Yields.bind (last [branch] (by simp)) fun _ => id
  · exact Yields.bind (last (branch :: next :: rest) (by simp)) fun _ => id

/-- A graph can always be made, unless a delay is no number of milliseconds, and shows its slices. -/
theorem overlayGraph_yields {α : Type} {read : FilterGraph.Reading τ α} {layer : Slice τ → α}
    (stable : FilterGraph.Stable read) (reads : FilterGraph.Reads read settings layer)
    (duration : τ) (silentAudio : Bool) (videoSlices audioSlices : List (Slice τ)) :
    Yields (overlayGraph settings duration silentAudio videoSlices audioSlices)
      (fun failure => ∃ number, failure = .number number)
      fun made => made.2.Pictures read (videoSlices.map layer) :=
  pictures_of_stacks stable settings duration
    (fun _ tidy based => addOverlays_reads stable reads videoSlices tidy based)
    fun _ tidy => addAudioMix_yields settings duration silentAudio audioSlices tidy (by decide)

/-- All that stands against a composition is that there is nothing to render, or that a delay is no
number of milliseconds. -/
theorem composeOverlay_fails {timeline : Timeline τ} {access : MediaAccess} {window : Window τ}
    {silentAudio : Bool} {cause : ComposeError}
    (failed : composeOverlay timeline access settings window silentAudio = .error cause) :
    cause = .nothingToRender ∨ ∃ number, cause = .number number := by
  rw [composeOverlay_eq] at failed
  dsimp only at failed
  split at failed
  · exact .inl (Except.error.inj failed).symm
  · right
    generalize hgraph : overlayGraph settings window.duration silentAudio _ _ = graph at failed
    cases graph with
    | error cause' =>
      obtain rfl : cause' = cause := Except.error.inj failed
      have yields := overlayGraph_yields FilterGraph.layer?_stable
        (FilterGraph.layer?_reads settings) window.duration silentAudio
        (Slice.gather access window false timeline.layersFromBottom {}).1
        (Slice.gather access window true timeline.heardTracks
          (Slice.gather access window false timeline.layersFromBottom {}).2).1
      rw [hgraph] at yields
      exact yields
    | ok made => exact absurd failed (by simp [Except.map])

end Failures

/-! ### Compositions -/

/-- Two compositions differ in the wording of complaints at most. -/
structure Composition.Alike (a b : Composition τ) : Prop where
  inputs : a.inputs = b.inputs
  graph : a.graph = b.graph
  duration : a.duration = b.duration
  videoOutput : a.videoOutput = b.videoOutput
  audioOutput : a.audioOutput = b.audioOutput
  diagnostics : a.diagnostics.length = b.diagnostics.length

/-- Where the same is read of the clips, layer by layer, the same composition is made, or it fails in
the same way. -/
theorem composeOverlay_alike {timeline timeline' : Timeline τ} (settings : OutputFormat τ)
    (silentAudio : Bool)
    (seen : List.Forall₂ (SameFootprint access access') (window.cast timeline.layersFromBottom)
      (window.cast timeline'.layersFromBottom))
    (heard : List.Forall₂ (SameFootprint access access') (window.cast timeline.heardTracks)
      (window.cast timeline'.heardTracks)) :
    (∃ cause, composeOverlay timeline access settings window silentAudio = .error cause ∧
      composeOverlay timeline' access' settings window silentAudio = .error cause) ∨
    ∃ a b, composeOverlay timeline access settings window silentAudio = .ok a ∧
      composeOverlay timeline' access' settings window silentAudio = .ok b ∧ a.Alike b := by
  have fresh : ({} : Gathered).Alike {} := ⟨rfl, rfl⟩
  obtain ⟨video, alike⟩ := Slice.gather_alike false seen fresh
  obtain ⟨audio, alike⟩ := Slice.gather_alike true heard alike
  rw [composeOverlay_eq, composeOverlay_eq]
  dsimp only
  rw [forall₂_isEmpty video, forall₂_isEmpty audio, overlayGraph_alike _ _ _ video audio]
  split
  · exact .inl ⟨.nothingToRender, rfl, rfl⟩
  · cases overlayGraph settings window.duration silentAudio _ _ with
    | error cause => exact .inl ⟨cause, rfl, rfl⟩
    | ok made => exact .inr ⟨_, _, rfl, rfl, alike.inputs, rfl, rfl, rfl, rfl, alike.diagnostics⟩

end Montage
