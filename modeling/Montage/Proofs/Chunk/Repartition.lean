import Montage.Proofs.Chunk.Partition
import Montage.Proofs.Chunk.Upkeep

/-!
# What is kept when a timeline gets longer or shorter

A chunk stays as long as its window does. In exact numbers a window has one place in all partitions
of windows of one length, so that a new cut, which looks at each place alone, keeps precisely the
chunks whose windows are in both cuts, whatever was done to them in between. All others are gone with
their files. The first that may go is the one at the end of the shorter timeline: those in front of it
are whole in both.

## Main definitions

* `Cache.CarriesOver` — a new cut keeps the chunks whose windows it has, and all others are new
* `CacheState.CarriesFiles` — their files stay as they were, and those of the others are gone
* `CacheState.Restamps` — nothing has changed but the time stamp of the manifest

## Main results

* `CacheState.windows_after` — no call but a new cut moves windows
* `Cache.carriesOver_cutInto` — a cut carries over what the one before it has in common with it
* `CacheState.recut_keeps_common` — a cut after another one and any calls in between, and once more
-/

namespace Montage

variable {τ : Type}

/-! ### Windows in exact numbers -/

section Exact

variable {duration other chunkDuration : Rat} {i j : Nat}

/-- A window stands at one place in all partitions of one length. -/
theorem place_eq_of_windowAt_eq (length : 0 < chunkDuration)
    (same : windowAt duration chunkDuration i = windowAt other chunkDuration j) : i = j := by
  rw [windowAt_rat, windowAt_rat, Window.mk.injEq] at same
  exact_mod_cast mul_right_cancel₀ length.ne' same.1

/-- Every timeline is cut, into as many windows as are counted. -/
theorem exists_partition_rat (length : 0 < chunkDuration) (duration : Rat) :
    ∃ windows, partition duration chunkDuration = .ok windows ∧
      ∀ i : Nat, (i + 1) * chunkDuration ≤ duration →
        windows[i]? = some ⟨i * chunkDuration, (i + 1) * chunkDuration⟩ := by
  rcases le_or_gt duration 0 with none | positive
  · refine ⟨[], if_pos (Scalar.zero_rat ▸ none), fun i fits => absurd fits (not_le.mpr ?_)⟩
    have : 0 < (i + 1) * chunkDuration := by positivity
    linarith
  · refine ⟨_, partition_rat positive length, fun i fits => ?_⟩
    -- So many whole windows are counted although a little may be left over.
    have counted : i < exactCount duration chunkDuration := by
      rw [lt_exactCount_iff length, leftover_rat]
      linarith
    rw [List.getElem?_map, List.getElem?_range counted, Option.map_some, windowAt_rat,
      min_eq_left fits]

theorem Chunk.covers_rat_iff {chunk : Chunk Rat} {window : Window Rat} :
    chunk.covers window = true ↔ chunk.window = window := by
  obtain ⟨start, stop⟩ := window
  simp [Chunk.covers, Chunk.window]

end Exact

/-! ### What stays in a cut -/

namespace Cache

variable [Scalar τ] {windows : List (Window τ)} {serial index i : Nat} {old : List (Chunk τ)}
  {chunk : Chunk τ}

/-- What stands at a place of a new cut has its window. It stood there before, or it is new and what
stood there has another window. -/
theorem arrange_getElem?_cases (h : (arrange serial index old windows)[i]? = some chunk) :
    ∃ window, windows[i]? = some window ∧
      (old[i]? = some chunk ∧ chunk.covers window = true ∨
        (∀ other, old[i]? = some other → other.covers window = false) ∧
        ∃ number, serial ≤ number ∧ chunk =
          { serial := number, index := index + i, start := window.start, stop := window.stop }) := by
  fun_induction arrange serial index old windows generalizing i with
  | case1 => exact absurd h (by simp)
  | case2 serial index window rest ih =>
    cases i with
    | zero => exact ⟨window, rfl, .inr ⟨by simp, serial, Nat.le_refl _, (Option.some.inj h).symm⟩⟩
    | succ i =>
      obtain ⟨window, there, ⟨none, -⟩ | ⟨-, number, le, rfl⟩⟩ := ih (by simpa using h)
      · exact absurd none (by simp)
      · exact ⟨window, there, .inr ⟨by simp, number, Nat.le_of_succ_le le, by rw [Nat.succ_add_eq_add_succ]⟩⟩
  | case3 serial index here old window rest same ih =>
    cases i with
    | zero =>
      obtain rfl := Option.some.inj h
      exact ⟨window, rfl, .inl ⟨rfl, same⟩⟩
    | succ i =>
      obtain ⟨window, there, kept | ⟨differ, number, le, rfl⟩⟩ := ih (by simpa using h)
      · exact ⟨window, there, .inl kept⟩
      · exact ⟨window, there, .inr ⟨differ, number, le, by rw [Nat.succ_add_eq_add_succ]⟩⟩
  | case4 serial index here old window rest differ ih =>
    cases i with
    | zero =>
      refine ⟨window, rfl, .inr ⟨?_, serial, Nat.le_refl _, (Option.some.inj h).symm⟩⟩
      rintro other same
      obtain rfl := Option.some.inj same
      exact Bool.eq_false_of_not_eq_true differ
    | succ i =>
      obtain ⟨window, there, kept | ⟨differ, number, le, rfl⟩⟩ := ih (by simpa using h)
      · exact ⟨window, there, .inl kept⟩
      · exact ⟨window, there, .inr ⟨differ, number, Nat.le_of_succ_le le,
          by rw [Nat.succ_add_eq_add_succ]⟩⟩

/-- A new cut keeps a chunk just if its window stays. -/
theorem Orderly.mem_arrange_iff {cache : Cache τ} (orderly : cache.Orderly) (h : chunk ∈ cache.chunks) :
    chunk ∈ arrange cache.nextSerial 0 cache.chunks windows ↔ stays windows chunk = true := by
  have there := orderly.getElem?_index h
  constructor
  · intro kept
    obtain ⟨i, hi⟩ := List.mem_iff_getElem?.mp kept
    obtain ⟨window, hwindow, ⟨before, covers⟩ | ⟨-, number, le, rfl⟩⟩ := arrange_getElem?_cases hi
    · rw [stays, orderly.placed i chunk before, hwindow]
      exact covers
    · exact absurd (orderly.numbered _ h) (Nat.not_lt.mpr le)
  · intro stays
    obtain ⟨window, hwindow, covers⟩ := (Option.any_eq_true _ _).mp stays
    obtain ⟨below, -⟩ := List.getElem?_eq_some_iff.mp hwindow
    rw [← length_arrange cache.nextSerial 0 cache.chunks] at below
    obtain ⟨found, hi⟩ : ∃ found,
        (arrange cache.nextSerial 0 cache.chunks windows)[chunk.index]? = some found :=
      ⟨_, List.getElem?_eq_getElem below⟩
    obtain ⟨_, hwindow', ⟨before, -⟩ | ⟨differ, -⟩⟩ := arrange_getElem?_cases hi
    · obtain rfl := Option.some.inj (there.symm.trans before)
      exact List.mem_of_getElem? hi
    · obtain rfl := Option.some.inj (hwindow.symm.trans hwindow')
      exact absurd covers (by rw [differ chunk there]; decide)

end Cache

/-- The chunks of a cache that was cut into windows. A chunk from before is there, as it was, just if its
window is one of these; the others are gone for good, and chunks that were not there are missing and
have a number and a window that no chunk had. -/
structure Cache.CarriesOver (before after : Cache τ) (windows : List (Window τ)) : Prop where
  cut : after.chunks.map Chunk.window = windows
  placed : ∀ (i : Nat) chunk, after.chunks[i]? = some chunk → chunk.index = i
  kept : ∀ chunk ∈ before.chunks, chunk ∈ after.chunks ↔ chunk.window ∈ windows
  dropped : ∀ chunk ∈ before.chunks, chunk.window ∉ windows →
    ∀ other ∈ after.chunks, other.serial ≠ chunk.serial
  new : ∀ chunk ∈ after.chunks, chunk ∉ before.chunks →
    chunk.status = .missing ∧ chunk.generation = 0 ∧ chunk.outputPath = none ∧
      ∀ old ∈ before.chunks, old.serial ≠ chunk.serial ∧ old.window ≠ chunk.window

section Recut

variable {cache : Cache Rat} {duration newDuration : Rat} {windows : List (Window Rat)} {chunk : Chunk Rat}

/-- The windows of the chunks are those of a partition. -/
theorem Cache.Orderly.window_eq (orderly : cache.Orderly)
    (cut : partition duration cache.chunkDuration = .ok (cache.chunks.map Chunk.window))
    (h : chunk ∈ cache.chunks) : chunk.window = windowAt duration cache.chunkDuration chunk.index := by
  refine (partition_getElem? cut ?_).2
  rw [List.getElem?_map, orderly.getElem?_index h]
  rfl

/-- A window stays in a new cut just if it is one of its windows, at whichever place. -/
theorem Cache.Orderly.stays_iff (orderly : cache.Orderly) (length : 0 < cache.chunkDuration)
    (cut : partition duration cache.chunkDuration = .ok (cache.chunks.map Chunk.window))
    (anew : partition newDuration cache.chunkDuration = .ok windows) (h : chunk ∈ cache.chunks) :
    Cache.stays windows chunk = true ↔ chunk.window ∈ windows := by
  constructor
  · intro stays
    obtain ⟨window, there, covers⟩ := (Option.any_eq_true _ _).mp stays
    rw [Chunk.covers_rat_iff.mp covers]
    exact List.mem_of_getElem? there
  · intro common
    obtain ⟨j, there⟩ := List.mem_iff_getElem?.mp common
    have place : chunk.index = j := place_eq_of_windowAt_eq length
      ((orderly.window_eq cut h).symm.trans (partition_getElem? anew there).2)
    rw [Cache.stays, place, there]
    exact Chunk.covers_rat_iff.mpr rfl

/-- What is kept of a cut in a new one is what the two have in common. -/
theorem Cache.carriesOver_cutInto (orderly : cache.Orderly) (length : 0 < cache.chunkDuration)
    (cut : partition duration cache.chunkDuration = .ok (cache.chunks.map Chunk.window))
    (anew : partition newDuration cache.chunkDuration = .ok windows)
    (placed : (cache.cutInto newDuration windows).Orderly) :
    cache.CarriesOver (cache.cutInto newDuration windows) windows where
  cut := by
    refine Cache.map_window_arrange_of_covers fun i chunk window _ _ covers => ?_
    exact Chunk.covers_rat_iff.mp covers
  placed := placed.placed
  kept chunk h := (orderly.mem_arrange_iff h).trans (orderly.stays_iff length cut anew h)
  dropped chunk h out other hother same := by
    obtain ⟨i, hi⟩ := List.mem_iff_getElem?.mp hother
    obtain ⟨_, -, ⟨before, -⟩ | ⟨-, number, le, rfl⟩⟩ := Cache.arrange_getElem?_cases hi
    · obtain rfl := orderly.eq_of_serial (List.mem_of_getElem? before) h same
      exact out ((orderly.stays_iff length cut anew h).mp ((orderly.mem_arrange_iff h).mp hother))
    · exact absurd (orderly.numbered chunk h) (Nat.not_lt.mpr (same ▸ le))
  new chunk h unknown := by
    obtain ⟨i, hi⟩ := List.mem_iff_getElem?.mp h
    obtain ⟨window, there, ⟨before, -⟩ | ⟨differ, number, le, rfl⟩⟩ := Cache.arrange_getElem?_cases hi
    · exact absurd (List.mem_of_getElem? before) unknown
    refine ⟨rfl, rfl, rfl, fun old hold => ⟨fun same => ?_, fun same => ?_⟩⟩
    · exact absurd (orderly.numbered old hold) (Nat.not_lt.mpr (same ▸ le))
    · -- A chunk with the same window would stand at the same place, and would have been kept.
      have known : old.window = window := same
      have place : old.index = i := place_eq_of_windowAt_eq length
        ((orderly.window_eq cut hold).symm.trans (known.trans (partition_getElem? anew there).2))
      have covered := differ old (place ▸ orderly.getElem?_index hold)
      exact absurd (Chunk.covers_rat_iff.mpr known) (by rw [covered]; decide)

end Recut

/-! ### Cuts and what comes between -/

/-- A new cut that is made at all is made of the chunks that were there. -/
theorem CacheAction.repartition_cuts [Scalar τ] {state : CacheState τ} {duration : τ}
    {windows : List (Window τ)} (cut : partition duration state.cache.chunkDuration = .ok windows) :
    Ensures (repartition duration) state
      (fun _ next => next.cache = state.cache.cutInto duration windows) (fun _ => True) := by
  have lifted : (liftM (partition duration state.cache.chunkDuration) :
      Except Failure (List (Window τ))) = .ok windows := by rw [cut]; rfl
  unfold repartition
  rw [ensures_bind, ensures_cache, ensures_bind, ensures_liftM, lifted]
  dsimp only
  rw [ensures_bind, ensures_files, ensures_bind, ensures_finishSweep]
  split
  · rw [ensures_bind, ensures_cache, ensures_bind, ensures_setCache]
    exact (save_keeps _ _ rfl).mono (fun _ _ same => same) fun _ _ => trivial
  · trivial

/-- A call that neither cuts the timeline nor opens a project moves no window. -/
theorem CacheCall.Effect.map_window_eq [Scalar τ] {call : CacheCall τ} {before after : Cache τ}
    {failure? : Option Failure} (effect : call.Effect before after failure?) (orderly : before.Orderly)
    (quiet : call.cutsAnew = false ∧ call.opensProject = false) :
    after.chunks.map Chunk.window = before.chunks.map Chunk.window := by
  have unopened (opens : call.opensProject = true) : False := by
    rw [quiet.2] at opens
    exact absurd opens (by decide)
  rcases effect.moves_or_cuts orderly with
    ⟨-, each⟩ | ⟨_, _, -, -, ⟨cuts, -⟩ | ⟨opens, -⟩⟩ | ⟨-, fails⟩
  · exact (map_eq_map_of_forall₂ (each.imp fun _ _ moves => moves.window.symm)).symm
  · rw [quiet.1] at cuts
    exact absurd cuts (by decide)
  · exact (unopened opens).elim
  · exact (fails fun opens => (unopened opens).elim).elim

namespace CacheState

variable [Scalar τ] {state : CacheState τ} {calls : List (CacheCall τ)}

/-- Windows are as long as they were when the cache was new. -/
theorem chunkDuration_after (state : CacheState τ) (calls : List (CacheCall τ)) :
    (state.after calls).cache.chunkDuration = state.cache.chunkDuration := by
  induction calls generalizing state with
  | nil => rfl
  | cons call rest ih => exact (ih _).trans (call.effected_leaves state).chunkDuration

/-- Calls that neither cut the timeline nor open a project move no window. -/
theorem windows_after (orderly : state.cache.Orderly)
    (quiet : ∀ call ∈ calls, call.cutsAnew = false ∧ call.opensProject = false) :
    (state.after calls).cache.chunks.map Chunk.window = state.cache.chunks.map Chunk.window := by
  induction calls generalizing state with
  | nil => rfl
  | cons call rest ih =>
    obtain ⟨here, later⟩ := List.forall_mem_cons.mp quiet
    exact (ih (call.keeps_orderly orderly) later).trans
      ((call.effected_leaves state).effect.map_window_eq orderly here)

end CacheState

/-! ### Files -/

/-- The files of the chunks whose windows are kept read as they did, those of the others are gone, and
nothing else on disk is changed but the manifest. -/
structure CacheState.CarriesFiles (before after : CacheState τ) (windows : List (Window τ)) : Prop where
  kept : ∀ chunk ∈ before.cache.chunks, chunk.window ∈ windows → ∀ path ∈ chunk.output?,
    after.disk.files.read (Path.ofText path).text = before.disk.files.read (Path.ofText path).text
  dropped : ∀ chunk ∈ before.cache.chunks, chunk.window ∉ windows → ∀ path ∈ chunk.output?,
    after.disk.files.pathExists (Path.ofText path).text = false
  others : ∀ place, ¬ before.disk.files.ManifestAt before.cache place →
    (∀ chunk ∈ before.cache.chunks, chunk.window ∉ windows → place ∉ chunk.place? before.disk.files) →
    after.disk.files.node? place = before.disk.files.node? place

/-- Where the files of the chunks are apart, those of the chunks that are not dropped stay. -/
theorem CacheState.Drops.carriesFiles {before after : CacheState τ} {out : Chunk τ → Prop}
    {windows : List (Window τ)} (drops : before.Drops out after) (orderly : before.cache.Orderly)
    (apart : before.cache.FilesApart before.disk.files)
    (known : ∀ chunk ∈ before.cache.chunks, out chunk ↔ chunk.window ∉ windows) :
    before.CarriesFiles after windows where
  kept chunk h common path output := by
    obtain ⟨place, located, -⟩ := apart.removable chunk h path output
    have lies : place ∈ chunk.place? before.disk.files := Chunk.mem_place?.mpr ⟨path, output, located⟩
    refine drops.folders.read_eq located (drops.others place (apart.beside chunk h place lies) ?_)
    intro other hother out lies'
    obtain rfl := orderly.eq_of_serial h hother (apart.alone chunk h other hother place lies lies')
    exact (known chunk h).mp out common
  dropped chunk h gone path output := by
    obtain ⟨place, located, -⟩ := apart.removable chunk h path output
    refine drops.folders.pathExists_eq_false located ?_
    exact drops.gone chunk h ((known chunk h).mpr gone) place (Chunk.mem_place?.mpr ⟨path, output, located⟩)
  others place beside kept :=
    drops.others place beside fun chunk h out => kept chunk h ((known chunk h).mp out)

/-- The same cache and the same files at another time. -/
def CacheState.later (state : CacheState τ) (now : Timestamp) : CacheState τ where
  cache := state.cache
  disk := ⟨state.disk.files, now⟩

/-- Nothing has changed but that the manifest bears another time stamp. -/
structure CacheState.Restamps [Scalar τ] (before after : CacheState τ) (now : Timestamp) : Prop where
  cache : ∃ nextSerial, after.cache = { before.cache with nextSerial }
  manifest : ∃ manifest : Manifest τ, before.disk.files.Holds before.cache manifest.text ∧
    after.disk.files.Holds before.cache { manifest with updatedAt := now }.text
  others : ∀ place, before.disk.files.locate before.cache.manifestFile.text ≠ .ok place →
    after.disk.files.node? place = before.disk.files.node? place

namespace FileTree

variable {tree after last : FileTree} {cache : Cache τ} {text text' : String} {place : Place}

/-- Once the manifest was saved, there is no draft of it. -/
theorem Saves.node?_draft (h : tree.Saves cache text after)
    (draft : after.locate cache.draftPath.text = .ok place)
    (elsewhere : after.locate cache.manifestFile.text ≠ .ok place) : after.node? place = none := by
  obtain ⟨made, drafted, -, -, hmoved⟩ := h
  have same : drafted.SameFolders after := sameFolders_of_move hmoved
  obtain ⟨_, source, goal, leads, there, leads', -, rfl⟩ := move_eq_ok.mp hmoved
  obtain rfl := Except.ok.inj ((same.locate_iff.mp leads).symm.trans draft)
  have not_goal : source ≠ goal := by
    rintro rfl
    exact elsewhere (same.locate_iff.mp leads')
  have below : source ≠ [] := by
    rintro rfl
    rw [node?_root] at there
    exact absurd there (by simp)
  rw [node?_put_of_ne not_goal, node?_erase_self below]

/-- A manifest that is saved again changes its own file alone. -/
theorem Saves.node?_again (h : tree.Saves cache text after) (h' : after.Saves cache text' last)
    (elsewhere : after.locate cache.manifestFile.text ≠ .ok place) :
    last.node? place = after.node? place := by
  have folder := h.takesManifest.folder
  have same := h'.sameFolders folder
  by_cases draft : after.locate cache.draftPath.text = .ok place
  · rw [h.node?_draft draft elsewhere,
      h'.node?_draft (same.locate_iff.mp draft) (same.locate_iff.not.mp elsewhere)]
  · exact h'.node?_of_not_manifestAt folder (not_or.mpr ⟨draft, elsewhere⟩)

end FileTree

/-! ### Cuts in exact numbers -/

section Exact

variable {duration newDuration : Rat} {windows : List (Window Rat)}

theorem Cache.map_window_cutInto (cache : Cache Rat) (duration : Rat) (windows : List (Window Rat)) :
    (cache.cutInto duration windows).chunks.map Chunk.window = windows :=
  map_window_arrange_of_covers fun _ _ _ _ _ covers => Chunk.covers_rat_iff.mp covers

/-- Chunks that are cut into their own windows are all kept. -/
theorem Cache.arrange_self (serial index : Nat) (chunks : List (Chunk Rat)) :
    arrange serial index chunks (chunks.map Chunk.window) = chunks := by
  induction chunks generalizing index with
  | nil => rfl
  | cons chunk rest ih =>
    have covers : chunk.covers chunk.window = true := Chunk.covers_rat_iff.mpr rfl
    rw [List.map_cons, arrange, if_pos covers, ih]

/-- The same cut once more drops nothing, and writes the manifest at another time. -/
theorem CacheAction.repartition_again {state : CacheState Rat} {files : FileTree} {saved now : Timestamp}
    (orderly : state.cache.Orderly)
    (cut : partition duration state.cache.chunkDuration = .ok (state.cache.chunks.map Chunk.window))
    (total : state.cache.totalDuration = Scalar.maxOf Scalar.zero duration)
    (saves : files.Saves state.cache (state.cache.manifest saved).text state.disk.files) :
    Ensures (repartition duration) (state.later now) (fun _ next => state.Restamps next now)
      (fun _ => False) := by
  let windows := state.cache.chunks.map Chunk.window
  have stays (chunk : Chunk Rat) (h : chunk ∈ state.cache.chunks) :
      Cache.stays windows chunk = true := by
    rw [Cache.stays, List.getElem?_map, orderly.getElem?_index h]
    exact Chunk.covers_rat_iff.mpr rfl
  have none : Cache.droppedPaths (fun chunk => !Cache.stays windows chunk) state.cache.chunks = [] := by
    refine List.eq_nil_iff_forall_not_mem.mpr fun path hpath => ?_
    obtain ⟨chunk, h, gone, -⟩ := Cache.mem_droppedPaths.mp hpath
    rw [stays chunk h] at gone
    exact absurd gone (by decide)
  have cut : partition duration (state.later now).cache.chunkDuration = .ok windows := cut
  have removed : FileTree.removeEach (Cache.droppedPaths (fun chunk => !Cache.stays windows chunk)
      (state.later now).cache.chunks) (state.later now).disk.files = .ok state.disk.files := by
    change FileTree.removeEach (Cache.droppedPaths _ state.cache.chunks) _ = _
    rw [none]
    rfl
  let again : CacheState Rat := {
    cache := { state.cache with nextSerial := state.cache.nextSerial + windows.length }
    disk := ⟨state.disk.files, now⟩ }
  have same : (state.later now).cache.cutInto duration windows = again.cache := by
    unfold Cache.cutInto
    rw [CacheState.later, Cache.arrange_self, ← total]
  refine (ensures_repartition cut removed).mpr ?_
  change Ensures save ⟨(state.later now).cache.cutInto duration windows, again.disk⟩ _ _
  rw [same]
  have takes : again.disk.files.TakesManifest again.cache := saves.takesManifest.of_folder rfl
  refine (save_of_takesManifest takes).mono ?_ fun _ => id
  rintro - _ ⟨after, saved', rfl⟩
  exact ⟨⟨_, rfl⟩, ⟨_, saves.holds, saved'.holds⟩, fun place elsewhere => saves.node?_again saved' elsewhere⟩

/-- A timeline is cut on a cache to which anything may have been done, then anything but cutting it and
opening a project is done, and it is cut again. The chunks that are kept are those whose windows are in
both cuts, and every window that is whole in both is one of them. Where the manifest can be written and
the files of the chunks are apart, the second cut is made, what is kept keeps its file and what is not
loses it; and when it is made once more, nothing changes but the time stamp of the manifest. -/
theorem CacheState.recut_keeps_common {first : CacheState Rat} (fresh : first.cache.IsFresh)
    {earlier calls : List (CacheCall Rat)}
    (returned : succeeds (CacheAction.repartition duration) (first.after earlier) = true)
    (quiet : ∀ call ∈ calls, call.cutsAnew = false ∧ call.opensProject = false) (newDuration : Rat) :
    let length := first.cache.chunkDuration
    let reached := (leaves (CacheAction.repartition duration) (first.after earlier)).after calls
    let next := leaves (CacheAction.repartition newDuration) reached
    ∃ windows newWindows, partition duration length = .ok windows ∧
      partition newDuration length = .ok newWindows ∧
      reached.cache.chunks.map Chunk.window = windows ∧
      (∀ i : Nat, (i + 1) * length ≤ min duration newDuration →
        ∃ chunk ∈ reached.cache.chunks, chunk.index = i ∧ chunk.window ∈ newWindows) ∧
      (succeeds (CacheAction.repartition newDuration) reached = true →
        reached.cache.CarriesOver next.cache newWindows) ∧
      (reached.cache.FilesApart reached.disk.files →
        succeeds (CacheAction.repartition newDuration) reached = true ∧
        reached.CarriesFiles next newWindows ∧
        ∀ now, succeeds (CacheAction.repartition newDuration) (next.later now) = true ∧
          next.Restamps (leaves (CacheAction.repartition newDuration) (next.later now)) now) := by
  intro length reached next
  have positive : 0 < length := by simpa using fresh.length
  obtain ⟨windows, cut, whole⟩ := exists_partition_rat positive duration
  obtain ⟨newWindows, anew, whole'⟩ := exists_partition_rat positive newDuration
  -- The first cut, and what the calls behind it leave of it.
  let made := leaves (CacheAction.repartition duration) (first.after earlier)
  have startLength : (first.after earlier).cache.chunkDuration = length := chunkDuration_after first earlier
  have madeCut : made.cache = (first.after earlier).cache.cutInto duration windows := by
    rcases (CacheAction.repartition_cuts (startLength ▸ cut)).ends with ⟨-, same⟩ | ⟨failed, -⟩
    · exact same
    · exact absurd (returned.symm.trans failed) (by decide)
  have madeOrderly : made.cache.Orderly :=
    (CacheCall.change (.repartition duration)).keeps_orderly (orderly_after fresh.orderly earlier)
  have orderly : reached.cache.Orderly := orderly_after madeOrderly calls
  have reachedLength : reached.cache.chunkDuration = length := by
    rw [chunkDuration_after made calls, madeCut]
    exact startLength
  have reachedWindows : reached.cache.chunks.map Chunk.window = windows := by
    rw [windows_after madeOrderly quiet, madeCut, Cache.map_window_cutInto]
  have reachedCut : partition duration reached.cache.chunkDuration =
      .ok (reached.cache.chunks.map Chunk.window) := by rw [reachedLength, reachedWindows, cut]
  -- The second cut.
  have reachedPositive : 0 < reached.cache.chunkDuration := by rwa [reachedLength]
  have anew' : partition newDuration reached.cache.chunkDuration = .ok newWindows := by rwa [reachedLength]
  have nextOrderly : next.cache.Orderly :=
    (CacheCall.change (.repartition newDuration)).keeps_orderly orderly
  have carriesOver (same : next.cache = reached.cache.cutInto newDuration newWindows) :
      reached.cache.CarriesOver next.cache newWindows := by
    rw [same] at nextOrderly ⊢
    exact Cache.carriesOver_cutInto orderly reachedPositive reachedCut anew' nextOrderly
  refine ⟨windows, newWindows, cut, anew, reachedWindows, fun i fits => ?_, fun returned' => ?_,
    fun apart => ?_⟩
  · obtain ⟨chunk, there, same⟩ : ∃ chunk, reached.cache.chunks[i]? = some chunk ∧
        chunk.window = ⟨i * length, (i + 1) * length⟩ := by
      have first := whole i (fits.trans (min_le_left _ _))
      rwa [← reachedWindows, List.getElem?_map, Option.map_eq_some_iff] at first
    refine ⟨chunk, List.mem_of_getElem? there, orderly.placed i chunk there, ?_⟩
    rw [same]
    exact List.mem_of_getElem? (whole' i (fits.trans (min_le_right _ _)))
  · rcases (CacheAction.repartition_cuts anew').ends with ⟨-, same⟩ | ⟨failed, -⟩
    · exact carriesOver same
    · exact absurd (returned'.symm.trans failed) (by decide)
  · rcases (CacheAction.repartition_drops apart anew').ends with
      ⟨done, same, drops, files, saves⟩ | ⟨-, failed⟩
    · have nextCut : partition newDuration next.cache.chunkDuration =
          .ok (next.cache.chunks.map Chunk.window) := by
        rw [same, Cache.map_window_cutInto]
        exact anew'
      have total : next.cache.totalDuration = Scalar.maxOf Scalar.zero newDuration := by rw [same]; rfl
      refine ⟨done, drops.carriesFiles orderly apart fun chunk h => ?_, fun now => ?_⟩
      · exact (orderly.stays_iff reachedPositive reachedCut anew' h).not
      · rcases (CacheAction.repartition_again nextOrderly nextCut total saves).ends with again | ⟨-, failed⟩
        · exact again
        · exact failed.elim
    · exact failed.elim

end Exact

/-! ### Two chunks and their files -/

namespace TwoFiles

open CacheAction

/-- A new cache with windows of two seconds, in a folder with files and a folder of others. -/
def first : CacheState Rat where
  cache := {
    folder := Path.ofText "cache", chunkDuration := 2, settings := {}, totalDuration := 0
    createdAt := Overtaken.day }
  disk := {
    files := ⟨[(["cache"], .folder), (["cache", "a.mp4"], .file [0]), (["cache", "b.mp4"], .file [1]),
      (["cache", "inner"], .folder)]⟩
    now := Overtaken.day }

theorem first_isFresh : first.cache.IsFresh := ⟨rfl, by decide +kernel, by decide +kernel⟩

/-- Both chunks of four seconds are rendered. -/
def renders (path other : String) : List (CacheCall Rat) :=
  [.startRender 0, .finishRender 0 path none none, .startRender 1, .finishRender 1 other none none]

theorem quiet_renders (path other : String) :
    ∀ call ∈ renders path other, call.cutsAnew = false ∧ call.opensProject = false := by
  simp [renders, CacheCall.cutsAnew, CacheCall.opensProject]

theorem first_cut : succeeds (repartition 4) (first.after []) = true := by decide +kernel

/-- The cache after both renders. -/
def reached (path other : String) : CacheState Rat :=
  (leaves (repartition 4) (first.after [])).after (renders path other)

theorem reached_apart : (reached "cache/a.mp4" "cache/b.mp4").cache.FilesApart
    (reached "cache/a.mp4" "cache/b.mp4").disk.files := by decide +kernel

/-- The file of a chunk is there before a new cut alone, although the chunk is there behind it. -/
def LosesFile (before after : CacheState Rat) (chunk kept : Chunk Rat) : Prop :=
  kept.serial = chunk.serial ∧ kept.output? = chunk.output? ∧
    chunk.output?.any (fun path => before.disk.files.pathExists (Path.ofText path).text &&
      !after.disk.files.pathExists (Path.ofText path).text) = true

instance (before after : CacheState Rat) (chunk kept : Chunk Rat) :
    Decidable (LosesFile before after chunk kept) :=
  inferInstanceAs (Decidable (_ ∧ _ ∧ _))

end TwoFiles

open CacheAction TwoFiles

/-- The chunk in front is in the cut of a timeline that is a second shorter, and keeps its file. -/
theorem shorter_cut_keeps_front :
    let state := reached "cache/a.mp4" "cache/b.mp4"
    let next := leaves (repartition 3) state
    state.cache.FilesApart state.disk.files ∧
    ∃ newWindows, partition 3 first.cache.chunkDuration = .ok newWindows ∧
      state.cache.CarriesOver next.cache newWindows ∧ state.CarriesFiles next newWindows ∧
      ∃ chunk ∈ state.cache.chunks, chunk.index = 0 ∧ chunk.window ∈ newWindows := by
  have long : (((0 : Nat) : Rat) + 1) * first.cache.chunkDuration ≤ min 4 3 := by decide +kernel
  have both := CacheState.recut_keeps_common first_isFresh first_cut
    (quiet_renders "cache/a.mp4" "cache/b.mp4") 3
  have apart := reached_apart
  unfold reached at apart ⊢
  -- What the cache is like is known by now; it is not to be computed again.
  generalize (leaves (repartition 4) (first.after [])).after
    (renders "cache/a.mp4" "cache/b.mp4") = state at both apart ⊢
  obtain ⟨_, newWindows, -, anew, -, common, carries, keeps⟩ := both
  obtain ⟨made, files, -⟩ := keeps apart
  exact ⟨apart, newWindows, anew, carries made, files, common 0 long⟩

/-- Two chunks were rendered to one file. The one behind is dropped, and the file with it, although the
one in front is kept. If a folder stands in the place of the file, no cut is made. -/
theorem exists_kept_chunk_without_file :
    let state := reached "cache/a.mp4" "cache/a.mp4"
    let next := leaves (repartition 2) state
    first.cache.IsFresh ∧ succeeds (repartition 4) (first.after []) = true ∧
    (∀ path other, ∀ call ∈ renders path other,
      call.cutsAnew = false ∧ call.opensProject = false) ∧
    (succeeds (repartition 2) state = true ∧
      ∃ chunk ∈ state.cache.chunks, ∃ kept ∈ next.cache.chunks, LosesFile state next chunk kept) ∧
    succeeds (repartition 2) (reached "cache/a.mp4" "cache/inner") = false := by
  refine ⟨first_isFresh, first_cut, quiet_renders, ?_, ?_⟩ <;> decide +kernel

end Montage
