import Montage.Proofs.Chunk.Upkeep
import Montage.Proofs.Preview.Renewal
import Montage.Proofs.Preview.Windows

/-!
# What an edit costs

An edit for the same output keeps a valid chunk if its window stays and its content is the same, and no
other: it cuts the cache anew, looks at each chunk in turn, and an invalidation of one window meets no
other. What is kept keeps its file, and the file of what is not kept is gone; nothing becomes valid.

This takes what an edit relies on: the timeline can be cut, the files of the chunks lie apart, and asking
whether a proxy exists gives one answer throughout.

## Main definitions

* `CacheState.CostsWindows` — the valid chunks whose windows are gone are gone with their files
* `LeftOut` — a chunk is out, or an edit has come to it and its content is another
* `Studio.Reviewed` — a session in which an edit has looked at the first chunks

## Main results

* `change_costs` — a new cut costs the chunks whose windows are gone
* `reconcile_costs` — looking at all chunks costs those whose content is another
* `Ledger.Reaches.update_costs` — what an edit costs
* `exists_kept_outdated` — a proxy that an edit deletes lets a chunk stay that shows it
-/

namespace Montage

open SessionAction

variable {answers : PathExists} {before : CacheState Double} {studio : Studio}
  {windows : List (Window Double)} {out : Chunk Double → Prop}

/-! ### New contents -/

/-- For settings that make no difference nothing is invalidated. -/
theorem CacheAction.applySettings_alike {state : CacheState Double} {settings : OutputFormat Double}
    (alike : state.cache.settings.sameOutput settings = true) :
    Ensures (applySettings settings) state
      (fun _ next => next = { state with cache := { state.cache with settings } })
      (fun _ => False) := by
  unfold applySettings
  rw [ensures_bind, ensures_cache, ensures_bind, ensures_setCache, if_pos alike]
  rfl

/-- A chunk has its own window, unless that is empty. -/
theorem Chunk.covers_window (chunk : Chunk Double) (nonempty : chunk.start < chunk.stop) :
    chunk.covers chunk.window = true := by
  obtain ⟨start, stop, hstart, hstop, -⟩ := Double.lt_iff.mp nonempty
  have sameStart : (chunk.start == chunk.start) = true := Double.beq_iff.mpr ⟨start, hstart, hstart⟩
  have sameStop : (chunk.stop == chunk.stop) = true := Double.beq_iff.mpr ⟨stop, hstop, hstop⟩
  exact Bool.and_eq_true_iff.mpr ⟨sameStart, sameStop⟩

/-- Some valid chunks are gone with their files, and of those whose window is not empty, exactly the ones
whose window is not among some others. -/
def CacheState.CostsWindows (windows : List (Window Double)) (before now : CacheState Double) : Prop :=
  ∃ out, before.Costs out now ∧ ∀ chunk ∈ before.cache.chunks, chunk.start < chunk.stop →
    (out chunk ↔ ¬ ∃ window ∈ windows, chunk.covers window = true)

/-- A new cut costs the chunks whose windows are gone. A timeline of the same length has the same
windows. -/
theorem fit_costs (kempt : studio.Kempt)
    (apart : studio.store.cache.FilesApart studio.store.disk.files) {duration : Double}
    (cut : partition duration studio.store.cache.chunkDuration = .ok windows) :
    Ensures (fit duration) studio
      (fun _ next => studio.store.CostsWindows windows next.store) (fun _ => False) := by
  have stays {chunk : Chunk Double} (hchunk : chunk ∈ studio.store.cache.chunks)
      (nonempty : chunk.start < chunk.stop) :=
    kempt.stays_iff cut hchunk nonempty
  unfold fit
  rw [ensures_bind, ensures_cache]
  split
  · rw [WorkshopAction.ensures_onCache]
    refine (CacheAction.repartition_costs kempt.orderly apart cut).mono (fun _ next costs => ?_)
      fun _ => id
    exact ⟨_, costs, fun chunk hchunk nonempty => not_congr (stays hchunk nonempty)⟩
  · next same =>
    refine ⟨_, .refl studio.store, fun chunk hchunk nonempty => ?_⟩
    have same : (duration == studio.store.cache.totalDuration) = true := by simpa using same
    refine iff_of_false id (not_not.mpr ?_)
    -- There are chunks, so the timeline is above zero, and its length is the same double.
    rcases kempt.cut with old | none
    · have there : chunk.window ∈ studio.store.cache.chunks.map Chunk.window :=
        List.mem_map_of_mem hchunk
      obtain ⟨place, hplace⟩ := List.mem_iff_getElem?.mp there
      have above := (partition_getElem? old hplace).1
      rw [← Double.eq_of_beq_of_not_le_zero above (Double.beq_symm same)] at cut
      obtain rfl := Except.ok.inj (Eq.trans (Eq.symm old) cut)
      exact ⟨chunk.window, there, chunk.covers_window nonempty⟩
    · rw [none] at hchunk
      exact absurd hchunk List.not_mem_nil

/-- A cache for other settings is as well kept for them. -/
theorem Cache.Kempt.resettle {settings : OutputFormat Double} {cache : Cache Double}
    (kempt : cache.Kempt settings) (wanted : OutputFormat Double) :
    { cache with settings := wanted }.Kempt wanted where
  orderly := ⟨kempt.orderly.placed, kempt.orderly.distinct, kempt.orderly.numbered,
    kempt.orderly.begun⟩
  cut := kempt.cut
  length := kempt.length
  settings := rfl

/-- New contents for the same output cost the chunks whose windows are gone. -/
theorem change_costs (kempt : studio.Kempt)
    (apart : studio.store.cache.FilesApart studio.store.disk.files) {timeline : Timeline Double}
    {media : Option MediaLibrary} {settings : Option (OutputFormat Double)}
    (alike : ∀ wanted ∈ settings, studio.shared.settings.sameOutput wanted = true)
    (cut : partition timeline.duration studio.store.cache.chunkDuration = .ok windows) :
    Ensures (change timeline media settings) studio
      (fun _ next => studio.store.CostsWindows windows next.store) (fun _ => False) := by
  let shown : Session Double :=
    { studio.shared with timeline, media := media.getD studio.shared.media }
  have fits (changed : Bool) (state : Studio) (kempt : state.Kempt)
      (apart : state.store.cache.FilesApart state.store.disk.files)
      (cut : partition timeline.duration state.store.cache.chunkDuration = .ok windows) :
      Ensures (do fit timeline.duration; return changed) state
        (fun _ next => state.store.CostsWindows windows next.store) (fun _ => False) := by
    rw [ensures_bind]
    exact (fit_costs kempt apart cut).mono (fun _ _ costs => costs) fun _ => id
  unfold change
  rw [ensures_bind, ensures_session, ensures_bind, ensures_setSession]
  cases settings with
  | none => exact fits false { studio with shared := shown } kempt apart cut
  | some wanted =>
    have same : studio.store.cache.settings.sameOutput wanted = true := by
      rw [kempt.settings]
      exact alike wanted rfl
    dsimp only
    unfold changeSettings
    rw [ensures_bind, ensures_bind, ensures_session, ensures_bind, ensures_setSession,
      WorkshopAction.ensures_onCache]
    refine (CacheAction.applySettings_alike same).mono (fun changed store applied => ?_) fun _ => id
    rw [applied]
    -- The chunks, the files and the folder are the same as before.
    let settled : Studio := { studio with
      store := { studio.store with cache := { studio.store.cache with settings := wanted } }
      shared := { shown with settings := wanted } }
    have kempt' : settled.Kempt := kempt.resettle wanted
    have apart' : settled.store.cache.FilesApart settled.store.disk.files :=
      ⟨apart.takes.of_folder rfl, apart.removable, apart.alone, apart.beside⟩
    refine (fits changed settled kempt' apart' cut).mono ?_ fun _ => id
    rintro - next ⟨out, costs, goes⟩
    exact ⟨out, ⟨costs.folder, costs.length, costs.folders, costs.kept, costs.gone, costs.others⟩, goes⟩

/-! ### Looking at all chunks -/

/-- A chunk that is out, or at one of the first places with another content than it is to have. -/
def LeftOut (out : Chunk Double → Prop) (answers : PathExists) (session : Session Double)
    (count : Nat) (chunk : Chunk Double) : Prop :=
  out chunk ∨ chunk.index < count ∧ chunk.start < chunk.stop ∧
    chunk.contentHash ≠ some (session.hashWith answers chunk.window)

theorem leftOut_succ {session : Session Double} {count : Nat} {chunk : Chunk Double} :
    LeftOut out answers session (count + 1) chunk ↔ LeftOut out answers session count chunk ∨
      chunk.index = count ∧ chunk.start < chunk.stop ∧
        chunk.contentHash ≠ some (session.hashWith answers chunk.window) := by
  unfold LeftOut
  rw [Nat.lt_succ_iff_lt_or_eq]
  tauto

/-- A session in which an edit has looked at the chunks at the first places. -/
structure Studio.Reviewed (answers : PathExists) (before : CacheState Double)
    (out : Chunk Double → Prop) (session : Session Double) (count : Nat) (studio : Studio) : Prop where
  costs : before.Costs (LeftOut out answers session count) studio.store
  kempt : studio.Kempt
  shared : studio.shared = session

/-- What a look at the next place costs is known if it is known of the valid chunks that are left. -/
theorem Studio.Reviewed.succ {session : Session Double} {count : Nat} {next : Studio}
    (reviewed : studio.Reviewed answers before out session count) {hit : Chunk Double → Prop}
    (costs : before.Costs
      (fun chunk => LeftOut out answers session count chunk ∨ hit chunk) next.store)
    (kempt : next.Kempt) (shared : next.shared = session)
    (here : ∀ chunk ∈ studio.store.cache.chunks, chunk.status = .valid → (hit chunk ↔
      chunk.index = count ∧ chunk.start < chunk.stop ∧
        chunk.contentHash ≠ some (session.hashWith answers chunk.window))) :
    next.Reviewed answers before out session (count + 1) := by
  refine ⟨costs.congr fun chunk hchunk valid => ?_, kempt, shared⟩
  rw [leftOut_succ]
  by_cases gone : LeftOut out answers session count chunk
  · exact iff_of_true (.inl gone) (.inl gone)
  · have there := (reviewed.costs.kept chunk valid).mpr ⟨hchunk, gone⟩
    exact or_congr_right (here chunk there valid)

/-- A valid chunk is outdated if its content is another. -/
theorem isOutdated_of_valid (steady : Steady answers studio) (chunk : Chunk Double) :
    Ensures (isOutdated chunk) studio
      (fun outdated next => next = studio ∧ (chunk.status = .valid → (outdated = true ↔
        chunk.contentHash ≠ some (studio.shared.hashWith answers chunk.window))))
      (fun _ => False) := by
  have hash : studio.shared.hashOf studio.store.disk.files chunk =
      studio.shared.hashWith answers chunk.window := steady.hashOf chunk
  unfold isOutdated
  split
  · refine ⟨rfl, fun _ => ?_⟩
    rw [← hash]
    exact decide_eq_true_iff
  · next busy =>
    rw [ensures_bind, ensures_session]
    split
    · exact ⟨rfl, fun valid => by simp [busy] at valid⟩
    · exact ⟨rfl, fun valid => by simp [busy] at valid⟩
  · next idle _ => exact ⟨rfl, fun valid => absurd valid idle⟩

/-- A look at the next chunk costs it if its content is another, and costs no other chunk. -/
theorem visit_refresh_costs {session : Session Double} {count : Nat}
    (apart : before.cache.FilesApart before.disk.files)
    (reviewed : studio.Reviewed answers before out session count) (steady : Steady answers studio) :
    Ensures (visit refresh count) studio
      (fun _ next => Studio.Reviewed answers before out session (count + 1) next)
      (fun _ => False) := by
  obtain ⟨costs, kempt, rfl⟩ := id reviewed
  have unchanged (right : ∀ chunk ∈ studio.store.cache.chunks, chunk.status = .valid →
      chunk.index = count →
      chunk.contentHash = some (studio.shared.hashWith answers chunk.window)) :
      studio.Reviewed answers before out studio.shared (count + 1) :=
    reviewed.succ (costs.congr fun _ _ _ => (iff_of_eq (or_false _)).symm) kempt rfl
      fun chunk hchunk valid => iff_of_false id fun wrong =>
        wrong.2.2 (right chunk hchunk valid wrong.1)
  unfold visit
  rw [ensures_bind, ensures_cache]
  split
  · next chunk hplace =>
    have hchunk := List.mem_of_getElem? hplace
    have place := kempt.orderly.placed count chunk hplace
    unfold refresh
    rw [ensures_bind]
    refine (isOutdated_of_valid steady chunk).mono ?_ fun _ => id
    rintro outdated state ⟨rfl, known⟩
    split
    · next outdated =>
      rw [ensures_bind]
      let meets (other : Chunk Double) : Bool := other.window.intersects chunk.start chunk.stop
      have invalidates : Ensures
          (WorkshopAction.onCache (CacheAction.invalidate chunk.start chunk.stop) :
            SessionAction Double (List Nat)) state
          (fun _ next => before.Costs (fun other =>
            LeftOut out answers state.shared count other ∨ meets other = true) next.store ∧
            next.shared = state.shared) (fun _ => False) :=
        WorkshopAction.ensures_onCache.mpr ((costs.invalidateWhere apart meets).mono
          (fun _ _ costs => ⟨costs, rfl⟩) fun _ => id)
      have keeps := Studio.Kempt.durable.keeps_call (.change (.invalidate chunk.start chunk.stop))
        (leaves_discard _) trivial _ kempt
      refine (invalidates.and keeps).mono ?_ fun _ => And.left
      rintro affected next ⟨⟨costs, shared⟩, kempt'⟩
      refine reviewed.succ costs kempt' shared fun other hother valid => ?_
      -- The invalidation meets the chunk itself, unless its window is empty, and no other.
      rw [kempt.intersects_iff hchunk hother]
      constructor
      · rintro ⟨rfl, nonempty⟩
        exact ⟨place, nonempty, (known valid).mp outdated⟩
      · rintro ⟨here, nonempty, -⟩
        obtain rfl := kempt.orderly.eq_of_index hother hchunk (here.trans place.symm)
        exact ⟨rfl, nonempty⟩
    · next current =>
      refine unchanged fun other hother valid here => ?_
      obtain rfl := kempt.orderly.eq_of_index hother hchunk (here.trans place.symm)
      by_contra wrong
      exact current ((known valid).mpr wrong)
  · next beyond =>
    refine unchanged fun other hother _ here => ?_
    have := kempt.orderly.getElem?_index hother
    rw [here, beyond] at this
    exact absurd this (by simp)

/-- Looking at all chunks costs those that are valid and whose content is another. -/
theorem reconcile_costs (apart : before.cache.FilesApart before.disk.files) (kempt : studio.Kempt)
    (costs : before.Costs out studio.store)
    (along : ∀ state ∈ trail (visit refresh) (List.range studio.store.cache.chunks.length) studio,
      Steady answers state) :
    Ensures reconcile studio
      (fun _ next => before.Costs (fun chunk => out chunk ∨ chunk.start < chunk.stop ∧
        chunk.contentHash ≠ some (Studio.hashOf next chunk)) next.store)
      (fun _ => False) := by
  let length := studio.store.cache.chunks.length
  have first : studio.Reviewed answers before out studio.shared 0 :=
    ⟨costs.congr fun chunk _ _ => by simp [LeftOut], kempt, rfl⟩
  unfold reconcile forChunks
  rw [ensures_bind, ensures_cache, List.range_eq_range'] at *
  refine (ensures_forM_range' (fun count state steady reviewed =>
    visit_refresh_costs apart reviewed steady) length 0 studio along first).mono ?_ fun _ => id
  rintro - next ⟨⟨costs', -, shared⟩, steady⟩
  refine costs'.congr fun chunk hchunk valid => ?_
  rw [steady.hashOf, shared, LeftOut, Nat.zero_add]
  by_cases gone : out chunk
  · exact iff_of_true (.inl gone) (.inl gone)
  · -- What is not out has a place among those that were looked at.
    have there := kempt.orderly.getElem?_index ((costs.kept chunk valid).mpr ⟨hchunk, gone⟩)
    have place : chunk.index < length := (List.getElem?_eq_some_iff.mp there).1
    exact or_congr_right (and_iff_right place)

/-! ### Queueing -/

/-- The chunks that are queued are not valid, and neither are those that begin to be rendered. -/
theorem admits_valid (cache : Cache Double) :
    Admits fun (_ : Scheduler Double ChunkRender EncoderReply) (now : Cache Double) =>
      ∀ chunk, chunk.status = .valid → (chunk ∈ now.chunks ↔ chunk ∈ cache.chunks) where
  idle _ _ _ h := h
  skip _ _ _ _ _ _ h _ := h
  begin entry rest scheduler now chunk order queue room h hget waits := by
    intro other valid
    have hchunk := Cache.mem_of_get hget
    have serial : (Cache.beginRender chunk).serial = chunk.serial := rfl
    rw [← h other valid, Cache.mem_put hchunk serial]
    constructor
    · rintro (rfl | ⟨there, -⟩)
      · exact absurd valid (by simp [Cache.beginRender])
      · exact there
    · refine fun there => .inr ⟨there, fun same => waits ?_⟩
      rwa [← order.chunks.eq_of_serial there hchunk same]
  enqueue _ _ _ h := h

/-- Queueing leaves the files and what is to be shown alone. -/
theorem keeps_apart_queueWaiting (studio : Studio) (urgency : Urgency) (retry : Bool) :
    Keeps (fun next : Studio => studio.Apart next) (queueWaiting urgency retry) := by
  have queues (index : Int) : Keeps (fun next : Studio => studio.Apart next)
      (WorkshopAction.queue index urgency) := by
    unfold WorkshopAction.queue
    refine Keeps.bind (fun _ h => h) fun scheduler => ?_
    split
    · exact Keeps.pure
    · refine Keeps.bind (fun _ h => ⟨h.disk, h.shared⟩) fun _ => Keeps.bind ?_ fun _ => Keeps.pure
      intro state h
      unfold WorkshopAction.pump
      rw [ensures_bind, ensures_get, ensures_set]
      exact ⟨h.disk, h.shared⟩
  unfold queueWaiting
  refine keeps_forChunks fun chunk => (keeps_isPending retry chunk).bind fun pending => ?_
  split
  · exact (queues _).bind fun _ => Keeps.pure
  · exact Keeps.pure

/-! ### The edit -/

/-- An edit for the same output keeps exactly the valid chunks whose windows stay and whose content is
the same, as they are and with their files. The files of the others are deleted, and nothing becomes
valid. -/
theorem Ledger.Reaches.update_costs {first : Studio} {before : Ledger} (new : first.IsNew)
    (fresh : first.store.cache.IsFresh) (reached : Ledger.Reaches ⟨first, []⟩ before)
    {timeline : Timeline Double} {media : Option MediaLibrary}
    {settings : Option (OutputFormat Double)}
    (alike : ∀ wanted ∈ settings, before.state.shared.settings.sameOutput wanted = true)
    (cut : partition timeline.duration before.state.store.cache.chunkDuration = .ok windows)
    (apart : before.state.store.cache.FilesApart before.state.store.disk.files)
    (steady : ∀ state ∈ (SessionEvent.update timeline media settings).passes before.state,
      Steady answers state) :
    ∃ told after, update timeline media settings before.state = .ok told after ∧
      (∀ chunk ∈ after.store.cache.chunks, chunk.status = .valid →
        chunk ∈ before.state.store.cache.chunks) ∧
      ∀ chunk ∈ before.state.store.cache.chunks, chunk.status = .valid →
        (chunk.start < chunk.stop → (chunk ∈ after.store.cache.chunks ↔
          (∃ window ∈ windows, chunk.covers window = true) ∧
            chunk.contentHash = some (Studio.hashOf after chunk))) ∧
        ∀ path ∈ chunk.output?,
          (chunk ∈ after.store.cache.chunks →
            after.store.disk.files.read (Path.ofText path).text =
              before.state.store.disk.files.read (Path.ofText path).text) ∧
          (chunk ∉ after.store.cache.chunks →
            after.store.disk.files.pathExists (Path.ofText path).text = false) := by
  have kempt : before.state.Kempt := reached.kempt new fresh
  have gaveUp := Ledger.Reaches.gaveUp reached new.gaveUp
  have changes : SurvivesChanges (Workshop.GaveUp before.account) :=
    Workshop.GaveUp.survivesEdits.changes
  have ends : Ensures (update timeline media settings) before.state (fun _ next =>
      ∃ out : Chunk Double → Prop,
        (∀ chunk ∈ before.state.store.cache.chunks, chunk.start < chunk.stop →
          (out chunk ↔ ¬ ∃ window ∈ windows, chunk.covers window = true)) ∧
        ∃ middle, before.state.store.Costs (fun chunk => out chunk ∨ chunk.start < chunk.stop ∧
            chunk.contentHash ≠ some (Studio.hashOf middle chunk)) middle.store ∧
          (∀ chunk, chunk.status = .valid →
            (chunk ∈ next.store.cache.chunks ↔ chunk ∈ middle.store.cache.chunks)) ∧
          middle.Apart next) (fun _ => False) := by
    unfold update
    rw [ensures_bind]
    refine (((ensures_reconcileStates (change_costs kempt apart alike cut) steady).and
      (changes.keeps_change timeline media settings _ gaveUp)).and
      (Studio.Kempt.durable.keeps_change timeline media settings _ kempt)).mono ?_ fun _ h => h.1.1
    rintro changed cutAnew ⟨⟨⟨⟨out, costs, goes⟩, along⟩, gaveUp⟩, kempt⟩
    rw [ensures_bind]
    refine ((reconcile_costs apart kempt costs along).and
      (changes.keeps_reconcile cutAnew gaveUp)).mono ?_ fun _ h => h.1
    rintro - middle ⟨costs, gaveUp⟩
    rw [ensures_bind]
    refine ((queueWaiting_attends (admits_valid middle.store.cache) .high changed gaveUp.order
      fun _ _ => Iff.rfl).and (keeps_apart_queueWaiting middle .high changed middle (.refl _))).mono
      ?_ fun _ h => h.1
    rintro - next ⟨⟨-, same, -⟩, apart⟩
    exact ⟨out, goes, middle, costs, same, apart⟩
  obtain ⟨told, after, returned, out, goes, middle, costs, same, still⟩ := ends.exists_ok
  refine ⟨told, after, returned, fun chunk hchunk valid => ?_, fun chunk hchunk valid => ⟨?_, ?_⟩⟩
  · exact ((costs.kept chunk valid).mp ((same chunk valid).mp hchunk)).1
  · intro nonempty
    rw [same chunk valid, costs.kept chunk valid, and_iff_right hchunk, not_or,
      goes chunk hchunk nonempty, not_not, and_iff_right nonempty, not_not, still.hashOf]
  · intro path output
    rw [still.disk]
    refine ⟨fun kept => ?_, fun lost => ?_⟩
    · have left := ((costs.kept chunk valid).mp ((same chunk valid).mp kept)).2
      exact costs.read_eq kempt.orderly apart hchunk valid left output
    · refine costs.pathExists_eq_false apart hchunk valid ?_ output
      by_contra left
      exact lost ((same chunk valid).mpr ((costs.kept chunk valid).mpr ⟨hchunk, left⟩))

/-! ### A session with two clips -/

namespace TwoClips

/-- A clip of another film, right behind the first one. -/
def behind : Clip Double := { OneClip.clip with
  id := "behind"
  mediaId := some "sequel"
  start := Double.ofRatio false 1 2
  times_nonneg := by decide +kernel }

/-- The clip behind with its source read from three seconds on. -/
def movedBehind : Clip Double := { behind with mediaIn := 3, times_nonneg := by decide +kernel }

/-- The two films, the first one perhaps with a proxy. -/
def media (proxy : Option String) : MediaLibrary := [
  ("film", { id := "film", type := .video, path := "/media/film.mp4", proxyPath := proxy }),
  ("sequel", { id := "sequel", type := .video, path := "/media/sequel.mp4" })]

/-- A job begins, and the encoder does it. -/
def done (job : Nat) : List SessionEvent := [
  .work,
  .answer job { result := .ok { success := true, exitCode := some 0 }, content := some [1] },
  .work]

/-- Both clips are rendered. -/
def rendered (proxy : Option String) : List SessionEvent :=
  .openProject (OneClip.timeline [OneClip.clip, behind]) (media proxy) none none ::
    (done 0 ++ done 1)

def moved : Timeline Double := OneClip.timeline [OneClip.clip, movedBehind]

/-- The source of the clip behind is read from another time on. -/
def moveBehind : SessionAction Double (List Nat) := update moved none none

/-- The first film has a proxy where the chunk of the clip behind is to lie. That chunk is rendered while
the first one is cancelled, and then the first one is rendered from its proxy. -/
def overlaid : List SessionEvent := [
  .openProject (OneClip.timeline [OneClip.clip, behind]) (media (some "cache/chunk-1-acf248aa.mp4"))
    none none,
  .cancel 0, .work, .finishCancel] ++ done 1 ++
  .invalidate 0 (Double.ofRatio false 1 2) :: done 2

end TwoClips

/-- Where the second of two clips that were rendered is moved, the window of the first keeps its chunk
with its file, and the file of the other is deleted. -/
theorem one_of_two_windows_is_kept :
    ∃ before told after kept lost, Ledger.Reaches ⟨OneClip.opened, []⟩ before ∧
      TwoClips.moveBehind before.state = .ok told after ∧
      kept ∈ before.state.store.cache.chunks ∧ kept.status = .valid ∧
      kept ∈ after.store.cache.chunks ∧
      lost ∈ before.state.store.cache.chunks ∧ lost.status = .valid ∧
      lost ∉ after.store.cache.chunks ∧
      (∃ path, kept.output? = some path ∧ after.store.disk.files.read (Path.ofText path).text =
        before.state.store.disk.files.read (Path.ofText path).text) ∧
      ∃ path, lost.output? = some path ∧
        after.store.disk.files.pathExists (Path.ofText path).text = false := by
  let isShownAt (place : Nat) (studio : Studio) : Bool :=
    studio.store.cache.chunks.any fun chunk =>
      chunk.index = place && chunk.status = .valid && chunk.output?.isSome
  let firstIsShown (_ : List Nat) (after : Studio) : Bool :=
    isShownAt 0 after && !isShownAt 1 after
  have ready : ∃ before, Ledger.Reaches ⟨OneClip.opened, []⟩ before ∧
      (Scalar.zero < before.state.store.cache.chunkDuration ∧
        (TwoClips.moved.duration / before.state.store.cache.chunkDuration).isFinite = true ∧
        before.state.store.cache.FilesApart before.state.store.disk.files ∧
        (∀ state ∈ (SessionEvent.update TwoClips.moved none none).passes before.state,
          Steady (fun _ => false) state) ∧ isShownAt 1 before.state = true ∧
      ((OneClip.told? TwoClips.moveBehind before.state).any fun result =>
        firstIsShown result.1 result.2) = true) :=
    ⟨_, Leads.any (TwoClips.rendered none) _, by decide +kernel⟩
  obtain ⟨before, reached, length, countable, apart, steady, shown, moved⟩ := ready
  obtain ⟨told, after, returned, left⟩ := OneClip.of_told? moved
  have fresh : OneClip.opened.store.cache.IsFresh :=
    ⟨rfl, by decide +kernel, by decide +kernel⟩
  obtain ⟨windows, cut⟩ := exists_partition length (.inr countable)
  obtain ⟨told', after', returned', old, each⟩ :=
    reached.update_costs OneClip.opened_isNew fresh (by simp) cut apart steady
  obtain ⟨rfl, rfl⟩ := EStateM.Result.ok.inj (returned'.symm.trans returned)
  simp only [isShownAt, firstIsShown, Bool.and_eq_true, Bool.not_eq_true', List.any_eq_true,
    List.any_eq_false, decide_eq_true_eq, Option.isSome_iff_exists] at shown left
  obtain ⟨lost, hlost, ⟨place, valid⟩, path, output⟩ := shown
  obtain ⟨⟨kept, hkept, ⟨-, valid'⟩, path', output'⟩, none⟩ := left
  have gone : lost ∉ after'.store.cache.chunks := fun there =>
    none lost there ⟨⟨place, valid⟩, path, output⟩
  have there := old kept hkept valid'
  exact ⟨before, told', after', kept, lost, reached, returned, there, valid', hkept, hlost, valid, gone,
    ⟨path', output', ((each kept there valid').2 path' output').1 hkept⟩,
    ⟨path, output, ((each lost hlost valid).2 path output).2 gone⟩⟩

/-- The proxy of the first film is the chunk of the second clip. When that clip is moved, the first chunk
stays valid, since its proxy is still there when it is looked at; then the proxy is deleted. -/
theorem exists_kept_outdated :
    ∃ before told after old chunk, Ledger.Reaches ⟨OneClip.opened, []⟩ before ∧
      TwoClips.moveBehind before.state = .ok told after ∧
      (∀ clip ∈ after.shared.timeline.clips, clip.start.isFinite ∧ clip.stop.isFinite) ∧
      before.state.store.disk.files.TakesManifest before.state.store.cache ∧
      old ∈ before.state.store.cache.chunks ∧ old.status = .valid ∧
      chunk ∈ after.store.cache.chunks ∧ chunk.serial = old.serial ∧ chunk.status = .valid ∧
      chunk.start < chunk.stop ∧ chunk.contentHash = old.contentHash ∧
      chunk.contentHash ≠ some (Studio.hashOf after chunk) := by
  let isKept (old chunk : Chunk Double) (after : Studio) : Bool :=
    chunk.serial = old.serial && chunk.status = .valid && chunk.start < chunk.stop &&
      chunk.contentHash = old.contentHash && chunk.contentHash ≠ some (Studio.hashOf after chunk)
  let keeps (before : Studio) (_ : List Nat) (after : Studio) : Bool :=
    (after.shared.timeline.clips.all fun clip => clip.start.isFinite && clip.stop.isFinite) &&
      before.store.cache.chunks.any fun old => old.status = .valid &&
        after.store.cache.chunks.any fun chunk => isKept old chunk after
  have ready : ∃ before, Ledger.Reaches ⟨OneClip.opened, []⟩ before ∧
      before.state.store.disk.files.TakesManifest before.state.store.cache ∧
      ((OneClip.told? TwoClips.moveBehind before.state).any fun result =>
        keeps before.state result.1 result.2) = true :=
    ⟨_, Leads.any TwoClips.overlaid _, by decide +kernel⟩
  obtain ⟨before, reached, takes, moved⟩ := ready
  obtain ⟨told, after, returned, kept⟩ := OneClip.of_told? moved
  simp only [keeps, isKept, Bool.and_eq_true, List.any_eq_true, List.all_eq_true,
    decide_eq_true_eq] at kept
  obtain ⟨ends, old, hold, valid, chunk, hchunk, ⟨⟨⟨serial, valid'⟩, length⟩, hash⟩, differ⟩ := kept
  exact ⟨before, told, after, old, chunk, reached, returned, ends, takes, hold, valid, hchunk, serial,
    valid', length, hash, differ⟩

end Montage
