import Montage.Proofs.Chunk.Truthful
import Montage.Proofs.Compose.Reasons
import Montage.Proofs.Preview.Housing

/-!
# Whether what is played is complex

While a chunk has no file to play, the player is told whether the segment is complex as it is now. Once
the chunk has one, the player is told what was noted when its render began, or by an earlier session.
What is noted is so for the timeline of that moment, which the chunk tells by its hash. The hash leaves
out the effects of clips, so an edit of effects alone keeps the chunk and what is told of it.

## Main definitions

* `Take` — what was to be shown when a render began
* `TookBefore` — a take of a session
* `Studio.Truthful` — what is told of rendered chunks is so for some take

## Main results

* `Studio.Truthful.next` — every event keeps it so
* `Run.playback_isComplex` — what the player is told
* `exists_untold_effect` — an effect that the player is not told of
-/

namespace Montage

open SessionAction

/-- What was to be shown in a window when its render began. -/
structure Take where
  timeline : Timeline Double
  access : MediaAccess
  window : Window Double

namespace Take

/-- All that the hash of a take covers. -/
def payload (take : Take) : Json Double :=
  ContentHash.windowPayload take.timeline take.access take.window

def hash (take : Take) : String := ContentHash.digest take.payload

/-- Whether the segment was complex. -/
def isComplex (take : Take) : Bool :=
  (take.timeline.segment take.window.start take.window.stop).isComplex

end Take

namespace Studio

/-- What a chunk is to show now. -/
def take (studio : Studio) (chunk : Chunk Double) : Take where
  timeline := studio.shared.timeline
  access := studio.shared.access studio.store.disk.files
  window := chunk.window

/-- The render of a chunk is what begins next. -/
def Begins (studio : Studio) (chunk : Chunk Double) : Prop :=
  ∃ id rest job, studio.scheduler.agenda = id :: rest ∧ studio.scheduler.job? id = some job ∧
    job.phase = .due false ∧ job.chunk = chunk

/-- What rendered chunks, the manifest and the jobs that wait tell is so. -/
structure Truthful (fits : String → Bool → Prop) (studio : Studio) : Prop extends studio.Rooted where
  store : studio.store.Truthful fits
  jobs : ∀ job ∈ studio.scheduler.active, ∀ kept, job.kept? = some kept →
    fits kept.contentHash kept.isComplex

namespace Truthful

variable {fits : String → Bool → Prop} {studio : Studio}

theorem mono {fits' : String → Bool → Prop} (h : studio.Truthful fits)
    (weaker : ∀ hash flag, fits hash flag → fits' hash flag) : studio.Truthful fits' where
  toRooted := h.toRooted
  store := {
    chunks := fun chunk hchunk valid => by
      obtain ⟨hash, known, fitting⟩ := h.store.chunks chunk hchunk valid
      exact ⟨hash, known, weaker _ _ fitting⟩
    manifest := fun manifest there entry hentry =>
      weaker _ _ (h.store.manifest manifest there entry hentry) }
  jobs job hjob kept hkept := weaker _ _ (h.jobs job hjob kept hkept)

/-- Where the cache is the same, and the manifest was there before, what is told stays so. -/
theorem of_contains (h : studio.Truthful fits) {store : CacheState Double} {session : Session Double}
    {scheduler : Scheduler Double ChunkRender EncoderReply} (cache : store.cache = studio.store.cache)
    (contains : ∀ manifest, store.Contains manifest → studio.store.Contains manifest)
    (retains : studio.scheduler.Retains scheduler) :
    Studio.Truthful fits { store, scheduler, shared := session } where
  toRooted := h.toRooted.of_folder (congrArg Cache.folder cache) retains
  store := {
    chunks := cache ▸ h.store.chunks
    manifest := fun manifest there => h.store.manifest manifest (contains manifest there) }
  jobs job hjob kept hkept := by
    obtain ⟨other, hother, -, hkept'⟩ := retains job hjob kept hkept
    exact h.jobs other hother kept hkept'

theorem called (h : studio.Truthful fits) (call : CacheCall Double)
    (own : ∀ files, call ≠ .change (.setFiles files))
    (done : ∀ index path contentHash isComplex, call = .finishRender index path contentHash isComplex →
      TruthfulRender fits contentHash isComplex) (session : Session Double) :
    Studio.Truthful fits
      { studio with store := leaves call.action studio.store, shared := session } where
  toRooted := h.toRooted.of_folder (call.trims own studio.store).folder (.refl _)
  store := CacheCall.truthful own h.inside h.store done
  jobs := h.jobs

/-- What is told stays so whatever an event is made of. -/
theorem durable : Studio.Durable (Studio.Truthful fits)
    fun _ contentHash isComplex => TruthfulRender fits contentHash isComplex where
  session studio session _ h := h.of_contains rfl (fun _ => id) (.refl _)
  scheduler studio scheduler retains h := h.of_contains rfl (fun _ => id) retains
  call call routine studio h := by
    refine h.called call ?_ ?_ studio.shared
    · rintro files rfl
      exact routine
    · rintro index path contentHash isComplex rfl
      exact routine
  remove studio path files removed h := by
    refine h.of_contains rfl (fun manifest there => ?_) (.refl _)
    have strips : studio.store.Strips
        { studio.store with disk := { studio.store.disk with files } } :=
      ⟨rfl, rfl, FileTree.loses_of_remove removed⟩
    exact strips.contains there
  changeSettings settings := Studio.keeps_changeSettings settings fun _ h =>
    h.called (.change (.applySettings settings)) (by simp) (by simp)

/-- The folder may be made, and no manifest comes with it. -/
theorem contains_of_prepares {next : CacheState Double} (prepares : ChunkRender.Prepares studio.store next)
    {manifest : Manifest Double} (there : next.Contains manifest) : studio.store.Contains manifest := by
  have same := prepares.sameFiles
  obtain ⟨files, -, rfl⟩ := prepares
  exact there.of_bytes rfl fun bytes => (same _ _).mp

/-- What the encoder writes is not the manifest. -/
theorem contains_of_wrote (rooted : studio.Rooted) {job : RenderJob} {kept : ChunkRender}
    (hjob : job ∈ studio.scheduler.active) (hkept : job.kept? = some kept) {content : List UInt8}
    {files : FileTree} (written : studio.store.disk.files.write kept.outputPath content = .ok files)
    {manifest : Manifest Double}
    (there : CacheState.Contains
      { studio.store with disk := { studio.store.disk with files } } manifest) :
    studio.store.Contains manifest := by
  obtain ⟨plain, path⟩ := rooted.paths job hjob kept hkept
  rw [path, Cache.outputPath_eq] at written
  refine there.of_bytes rfl fun bytes => ?_
  have same : studio.store.cache.manifestNode? files =
      studio.store.cache.manifestNode? studio.store.disk.files :=
    Cache.manifestNode?_of_write rooted.inside (Cache.plain_chunkName plain)
      (Cache.chunkName_ne CacheAction.unlike_up) Cache.chunkName_ne_manifest written
  exact same.symm.trans

/-- A job that begins to wait keeps what is so of its chunk now. -/
theorem waits (h : studio.Truthful fits) (job : RenderJob) {next : CacheState Double}
    (prepares : ChunkRender.Prepares studio.store next) (session : Session Double)
    (fitting : fits (studio.take job.chunk).hash (studio.take job.chunk).isComplex) :
    Studio.Truthful fits {
      store := next, shared := session
      scheduler := studio.scheduler.putJob { job with
        phase := .waiting (ChunkRender.ofChunk studio.shared studio.store job.chunk) } } where
  toRooted := h.toRooted.waits job prepares.cache session
  store := {
    chunks := prepares.cache ▸ h.store.chunks
    manifest := fun manifest there => h.store.manifest manifest (contains_of_prepares prepares there) }
  jobs other hother kept hkept := by
    obtain ⟨old, hold, rfl⟩ := List.mem_map.mp hother
    split at hkept
    · obtain rfl := Option.some.inj hkept
      exact fitting
    · exact h.jobs old hold kept hkept

/-- What is told stays so in the worker's half of a step, if it is so of what begins. -/
theorem reports (h : studio.Truthful fits) {job : RenderJob} (hjob : job ∈ studio.scheduler.active)
    (fitting : job.phase = .due false →
      fits (studio.take job.chunk).hash (studio.take job.chunk).isComplex) :
    Studio.Reports (Studio.Truthful fits)
      (fun _ contentHash isComplex => TruthfulRender fits contentHash isComplex) job studio := by
  refine durable.reports h (fun due => ?_) fun kept reply answered => ?_
  · have begun {next : CacheState Double} (session : Session Double)
        (prepares : ChunkRender.Prepares studio.store next) :
        Studio.Truthful fits { studio with store := next, shared := session } :=
      h.of_contains prepares.cache (fun _ => contains_of_prepares prepares) (.refl _)
    refine ((ChunkRender.begin_disk job.chunk studio.store studio.shared).and
      (ChunkRender.begin_spec job.chunk studio.store studio.shared)).mono ?_ ?_
    · rintro (kept | outcome) ⟨next, session⟩ ⟨⟨prepares, known⟩, -, step⟩
      · obtain rfl := known
        exact h.waits job prepares session (fitting due)
      · exact ⟨begun session prepares, step.1.1⟩
    · rintro ⟨next, session⟩ ⟨prepares, -⟩
      exact begun session prepares
  · have hkept : job.kept? = some kept := by simp [Job.kept?, answered]
    have resumed {next : CacheState Double} (session : Session Double)
        (wrote : ∀ content, reply.content = some content →
          ∃ files, studio.store.disk.files.write kept.outputPath content = .ok files ∧
            next = { studio.store with disk := { studio.store.disk with files } })
        (same : reply.content = none → next = studio.store) :
        Studio.Truthful fits { studio with store := next, shared := session } := by
      cases content : reply.content with
      | none =>
        rw [same content]
        exact h.of_contains rfl (fun _ => id) (.refl _)
      | some content' =>
        obtain ⟨files, written, rfl⟩ := wrote content' content
        exact h.of_contains rfl
          (fun _ => contains_of_wrote h.toRooted hjob hkept written) (.refl _)
    refine (ChunkRender.resume_disk kept reply).mono ?_ ?_
    · rintro _ ⟨next, session⟩ ⟨wrote, same, ran, -, rfl⟩
      refine ⟨resumed session wrote same, fun success path hpath => ?_⟩
      unfold ChunkRender.outcome at success ⊢
      split_ifs at success ⊢
      exact ⟨kept.contentHash, kept.isComplex, rfl, rfl, h.jobs job hjob kept hkept⟩
    · rintro ⟨next, session⟩ (rfl | ⟨wrote, same⟩)
      · exact h.of_contains rfl (fun _ => id) (.refl _)
      · exact resumed session wrote same

/-- Every event keeps what is told so, if it is so of the chunk whose render begins. -/
theorem next (h : studio.Truthful fits) (event : SessionEvent)
    (fitting : ∀ chunk, event = .work → studio.Begins chunk →
      fits (studio.take chunk).hash (studio.take chunk).isComplex) :
    Studio.Truthful fits (leaves event.action studio) := by
  refine durable.next h event fun work id rest job agenda found waiting => ?_
  exact waiting.reports (List.mem_of_find?_eq_some found) fun due =>
    fitting job.chunk work ⟨id, rest, job, agenda, found, due, rfl⟩

end Truthful

end Studio

/-! ### Runs -/

section Runs

variable {answers : PathExists} {allowed : Studio → SessionEvent → Prop} {earlier : List Take}
  {first studio : Studio} {log : Chronicle} {take : Take}

/-- A take of earlier sessions, or one with which a render began on the way from one state to another. -/
def TookBefore (answers : PathExists) (allowed : Studio → SessionEvent → Prop) (earlier : List Take)
    (first studio : Studio) (take : Take) : Prop :=
  take ∈ earlier ∨ ∃ past log after chunk, Run answers allowed first past log ∧
    Run answers allowed past studio after ∧ past.Begins chunk ∧ take = past.take chunk

/-- What takes tell of a hash. -/
def Tells (takes : Take → Prop) (hash : String) (flag : Bool) : Prop :=
  ∃ take, takes take ∧ hash = take.hash ∧ flag = take.isComplex

/-- The manifest that lies in the folder is of earlier sessions. -/
def Studio.Inherits (earlier : List Take) (studio : Studio) : Prop :=
  ∀ manifest, studio.store.Contains manifest → ∀ entry ∈ manifest.entries,
    Tells (· ∈ earlier) entry.contentHash entry.isComplex

theorem TookBefore.step {event : SessionEvent} (h : TookBefore answers allowed earlier first studio take)
    (may : allowed studio event) (along : ∀ state ∈ event.passes studio, Steady answers state)
    (steady : Steady answers (leaves event.action studio)) :
    TookBefore answers allowed earlier first (leaves event.action studio) take := by
  rcases h with old | ⟨past, log, after, chunk, reached, onwards, begins, rfl⟩
  · exact .inl old
  · exact .inr ⟨past, log, _, chunk, reached, onwards.step event may along steady, begins, rfl⟩

/-- In every state of a session, what is told of rendered chunks is so for some take. -/
theorem Run.truthful (new : first.IsNew) (inside : first.store.cache.folder.Inside)
    (inherits : first.Inherits earlier) (run : Run answers allowed first studio log) :
    studio.Truthful (Tells (TookBefore answers allowed earlier first studio)) := by
  induction run with
  | start =>
    exact {
      inside
      paths := by simp [new.active]
      store := {
        chunks := by simp [new.chunks]
        manifest := fun manifest there entry hentry => by
          obtain ⟨take, old, told⟩ := inherits manifest there entry hentry
          exact ⟨take, .inl old, told⟩ }
      jobs := by simp [new.active] }
  | @step studio log event run may along steady ih =>
    refine (ih.mono ?_).next event ?_
    · rintro hash flag ⟨take, took, told⟩
      exact ⟨take, took.step may along steady, told⟩
    · rintro chunk rfl begins
      have onwards : Run answers allowed studio (leaves SessionEvent.work.action studio) _ :=
        Run.start.step .work may along steady
      exact ⟨studio.take chunk, .inr ⟨studio, log, _, chunk, run, onwards, begins, rfl⟩, rfl, rfl⟩

/-- The player is told of a chunk that there is: of a chunk with a file to play, what the chunk tells, and of
another, what is so now. -/
theorem SessionAction.playbackAt_tells (studio : Studio) (t : Double) :
    Ensures (playbackAt t) studio
      (fun playback _ => ∀ i, playback.index = some i →
        ∃ chunk, studio.store.cache.chunks[i]? = some chunk ∧
          (playback.path = none → playback.isComplex = (studio.take chunk).isComplex) ∧
          (playback.path ≠ none → chunk.status = .valid ∧ playback.isComplex = chunk.isComplex))
      fun _ => True := by
  unfold playbackAt
  rw [ensures_bind, ensures_cache]
  refine Ensures.liftM_bind (fun index found => ?_) trivial
  split
  · exact fun i none => absurd none (by simp)
  · next chunk there =>
    obtain ⟨i, rfl, there⟩ := Option.bind_eq_some_iff.mp there
    rw [ensures_bind, ensures_files, ensures_bind, ensures_session, ensures_pure]
    rintro _ ⟨⟩
    refine ⟨chunk, there, fun unplayable => ?_, fun played => ?_⟩
    · exact if_neg (Option.not_isSome_iff_eq_none.mpr unplayable)
    · obtain ⟨path, playable⟩ := Option.ne_none_iff_exists'.mp played
      have valid := (Option.filter_eq_some_iff.mp playable).2
      rw [Bool.and_eq_true, decide_eq_true_eq] at valid
      exact ⟨valid.1, if_pos (Option.isSome_iff_exists.mpr ⟨path, playable⟩)⟩

/-- What the player is told at a time. While a chunk has no file to play, it is told whether the segment is
complex as it is now. If the chunk has one, it is told whether the segment was complex when its render
began, in this session or an earlier one; the chunk tells the hash of what was rendered, which is that of
what is to be shown now unless the last call failed. If the two are the same in all that the hash covers,
what the player is told is so now exactly if the segment is complex whatever effects it has, or has effects
now if it had some then. -/
theorem Run.playback_isComplex (new : first.IsNew) (inside : first.store.cache.folder.Inside)
    (inherits : first.Inherits earlier) (run : Run answers allowed first studio log) {t : Double}
    {playback : Playback Double} (shown : value? (SessionAction.playbackAt t) studio = some playback)
    {i : Nat} (index : playback.index = some i) :
    ∃ chunk, studio.store.cache.chunks[i]? = some chunk ∧
      (playback.path = none → playback.isComplex = (studio.take chunk).isComplex) ∧
      (playback.path ≠ none → ∃ take, TookBefore answers allowed earlier first studio take ∧
        chunk.contentHash = some take.hash ∧ playback.isComplex = take.isComplex ∧
        (log.behind = false → chunk.start < chunk.stop → take.hash = (studio.take chunk).hash) ∧
        (take.payload = (studio.take chunk).payload → take.timeline.InSixPlaces take.window →
          studio.shared.timeline.InSixPlaces chunk.window →
          (playback.isComplex = (studio.take chunk).isComplex ↔
            studio.shared.timeline.isComplexWithoutEffects chunk.window = true ∨
              take.timeline.showsEffects take.window =
                studio.shared.timeline.showsEffects chunk.window))) := by
  have tells : ∀ i, playback.index = some i → ∃ chunk, studio.store.cache.chunks[i]? = some chunk ∧
      (playback.path = none → playback.isComplex = (studio.take chunk).isComplex) ∧
      (playback.path ≠ none → chunk.status = .valid ∧ playback.isComplex = chunk.isComplex) := by
    rcases (SessionAction.playbackAt_tells studio t).value with ⟨playback', shown', tells⟩ | ⟨none, -⟩
    · obtain rfl := Option.some.inj (shown.symm.trans shown')
      exact tells
    · exact absurd (shown.symm.trans none) (by simp)
  obtain ⟨chunk, there, unplayable, playable⟩ := tells i index
  refine ⟨chunk, there, unplayable, fun played => ?_⟩
  obtain ⟨valid, told⟩ := playable played
  have hchunk : chunk ∈ studio.store.cache.chunks := List.mem_of_getElem? there
  have truthful := run.truthful new inside inherits
  obtain ⟨_, hash, take, took, rfl, flag⟩ := truthful.store.chunks chunk hchunk valid
  refine ⟨take, took, hash, told.trans flag, fun known length => ?_, fun same places places' => ?_⟩
  · obtain ⟨coherent, steady⟩ := run.coherent new
    have current : chunk.contentHash = some (studio.hashOf chunk) := by
      rw [steady.hashOf]
      exact (coherent.sound.content known).shown chunk hchunk valid length
    exact Option.some.inj (hash.symm.trans current)
  · rw [told, flag]
    exact ContentHash.isComplex_eq_iff places places' same

end Runs

/-! ### A clip that gets an effect -/

namespace OneClip

/-- The clip, shown as fast as it was taken. -/
def steadyClip : Clip Double :=
  { clip with mediaOut := Double.ofRatio false 1 2, times_nonneg := by decide +kernel }

/-- The clip with an effect. -/
def blurredClip : Clip Double := { steadyClip with effects := [{ type := "blur" }] }

/-- The steady clip is rendered, and then gets an effect. -/
def blurring : List SessionEvent := [
  .openProject (timeline [steadyClip]) media none none,
  .work,
  .answer 0 { result := .ok { success := true, exitCode := some 0 }, content := some [1] },
  .work,
  .update (timeline [blurredClip]) none none]

/-- No session has left anything in the folder. -/
theorem opened_inherits : opened.Inherits [] := by
  rintro manifest ⟨bytes, text, there, -⟩
  exact absurd there (by simp [Cache.manifestNode?, FileTree.node?, opened])

/-- The player shows the rendered chunk of the clip. -/
def isPlayed (studio : Studio) (log : Chronicle) : Bool :=
  !log.behind && (studio.store.cache.chunks.all fun chunk => chunk.start < chunk.stop) &&
    (value? (SessionAction.playbackAt 0) studio).any fun playback =>
      playback.index = some 0 && playback.path.isSome

/-- The player shows the rendered chunk of the clip, and is not told of what is complex in it now. -/
def isUntold (studio : Studio) (log : Chronicle) : Bool :=
  !log.behind && studio.store.cache.chunks[0]?.any fun chunk =>
    (studio.take chunk).isComplex &&
      (value? (SessionAction.playbackAt 0) studio).any fun playback =>
        playback.index = some 0 && playback.path.isSome && !playback.isComplex

end OneClip

/-- When a clip has got an effect, its chunk is still there, and the player is told what was so when it was
rendered. -/
theorem blurred_clip_is_told :
    ∃ studio log playback chunk take, Run (fun _ => false) (fun _ _ => True) OneClip.opened studio log ∧
      value? (SessionAction.playbackAt 0) studio = some playback ∧
      studio.store.cache.chunks[0]? = some chunk ∧ playback.path ≠ none ∧
      TookBefore (fun _ => false) (fun _ _ => True) [] OneClip.opened studio take ∧
      playback.isComplex = take.isComplex ∧ take.hash = (studio.take chunk).hash := by
  have reached : ∃ studio log, Run (fun _ => false) (fun _ _ => True) OneClip.opened studio log ∧
      OneClip.isPlayed studio log = true :=
    Run.exists_of_follow OneClip.blurring (by decide +kernel)
  obtain ⟨studio, log, run, played⟩ := reached
  simp only [OneClip.isPlayed, Bool.and_eq_true, Bool.not_eq_true', List.all_eq_true, decide_eq_true_eq,
    Option.any_eq_true] at played
  obtain ⟨⟨known, lengths⟩, playback, shown, index, path⟩ := played
  have path : playback.path ≠ none := Option.isSome_iff_ne_none.mp path
  obtain ⟨chunk, there, -, told⟩ := run.playback_isComplex OneClip.opened_isNew
    OneClip.inside_opened OneClip.opened_inherits shown index
  obtain ⟨take, took, -, flag, current, -⟩ := told path
  exact ⟨studio, log, playback, chunk, take, run, shown, there, path, took, flag,
    current known (lengths chunk (List.mem_of_getElem? there))⟩

/-- When a rendered clip gets an effect, the player is not told that the segment is complex. -/
theorem exists_untold_effect :
    ∃ studio log playback chunk, Run (fun _ => false) (fun _ _ => True) OneClip.opened studio log ∧
      log.behind = false ∧ value? (SessionAction.playbackAt 0) studio = some playback ∧
      playback.index = some 0 ∧ playback.path ≠ none ∧ studio.store.cache.chunks[0]? = some chunk ∧
      playback.isComplex = false ∧
      (studio.shared.timeline.segment chunk.start chunk.stop).isComplex = true := by
  have reached : ∃ studio log, Run (fun _ => false) (fun _ _ => True) OneClip.opened studio log ∧
      OneClip.isUntold studio log = true :=
    Run.exists_of_follow OneClip.blurring (by decide +kernel)
  obtain ⟨studio, log, run, untold⟩ := reached
  simp only [OneClip.isUntold, Bool.and_eq_true, Bool.not_eq_true', decide_eq_true_eq,
    Option.any_eq_true] at untold
  obtain ⟨known, chunk, there, complex, playback, shown, ⟨index, path⟩, flag⟩ := untold
  exact ⟨studio, log, playback, chunk, run, known, shown, index, Option.isSome_iff_ne_none.mp path, there,
    flag, complex⟩

end Montage
