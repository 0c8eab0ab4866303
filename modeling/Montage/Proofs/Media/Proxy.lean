import Montage.Media.Proxy
import Montage.Proofs.Files.Write
import Montage.Proofs.Run.Starts

/-!
# Which proxies are used again

That its file is there is all that tells a proxy from one that is still to be made, and the encoder
writes to that very file. So a maker that returns and has not made the proxy removes the file first. But
it does so only behind the run of the encoder: where the run raises, be it because the task is stopped or
because a report of the encoder cannot be read, what its process has written stays, and the next call
takes it for a proxy.

## Main definitions

* `ProxyMaker.Call` — a call for a proxy; `Call.Ends` — the four ways in which it ends
* `Call.WritesAt` — the process of a call has written a file
* `ProxyMaker.InTurn` — calls one after the other, between which nobody touches a file

## Main results

* `Call.ends` — how a call ends, and what it leaves
* `Call.origin` — where a file comes from that a call leaves; `InTurn.origin`, that several calls leave
* `InTurn.leaves_proxies` — which calls leave a file although they report no success, and which files are
  used again
-/

namespace Montage

open SceneAction

variable {σ : Type}

/-! ### The files behind a run -/

/-- A scene with some files, and with a number of processes. -/
structure Scene.Has (files : FileTree) (count : Nat) (scene : Scene σ) : Prop where
  files : scene.station.files = files
  processes : scene.station.processes.length = count

theorem Scene.persists_has (files : FileTree) (count : Nat) : Persists (@Scene.Has σ files count) := by
  intro scene after has idles
  exact ⟨idles.files.trans has.files, idles.processes.trans has.processes⟩

/-- A run leaves the files as they were, or as its process has written them. -/
theorem run_writes {options : RunOptions σ} (keep : ∀ files count, options.Keep (Scene.Has files count))
    {scene : Scene σ} {plan : ProcessPlan} (first : scene.station.plans.headD {} = plan)
    {files : FileTree} {count : Nat} (has : scene.Has files count) (command : List String) :
    Ensures (SceneAction.run options command) scene
      (fun outcome next => next.Has files count ∧ outcome.success = false ∨
        next.Has (plan.written command files) (count + 1))
      (fun next => next.Has files count ∨ next.Has (plan.written command files) (count + 1)) := by
  have starts (other : Scene σ) (h : other.Has files count) :
      (other.starting command).Has files count := ⟨h.files, h.processes⟩
  have started (other : Scene σ) (h : other.Has files count) :
      (other.started command plan).Has (plan.written command files) (count + 1) := by
    refine ⟨congrArg (plan.written command) h.files, ?_⟩
    change (other.station.processes ++ [plan.signals]).length = count + 1
    rw [List.length_append, h.processes]
    rfl
  have ran := (Scene.persists_has files count).run (Scene.persists_has files count)
    (Scene.persists_has _ (count + 1)) (keep _ _) (keep _ _) starts (fun _ => started) has first
  exact ran.mono (fun _ _ => id) fun _ left => left.elim .inl id

namespace ProxyMaker

/-! ### One call -/

/-- A call for the proxy of an item. -/
structure Call (σ : Type) where
  maker : ProxyMaker
  controls : JobControls σ
  onUpdate : EncoderProgress → SceneAction σ Unit
  item : MediaFile
  before : Scene σ

namespace Call

variable (call : Call σ)

def action : SceneAction σ ProxyOutcome := call.maker.make call.controls call.onUpdate call.item

/-- What a call reports, unless it raises. -/
def outcome? : Option ProxyOutcome := value? call.action call.before

def after : Scene σ := leaves call.action call.before

/-- Where the proxy belongs. -/
def path : String := (call.maker.pathFor call.item.id).text

/-- What the process of a call will do. -/
def plan : ProcessPlan := call.before.station.plans.headD {}

/-- The files once the folder of the proxies was made, unless it cannot be made. -/
def prepared : FileTree :=
  ((call.before.station.files.makeFolders call.maker.folder).toOption).getD call.before.station.files

def command : List String :=
  proxyCommand call.maker.encoderPath call.item.path call.path call.maker.scale .proxy

/-- The files once the process has written the proxy, if it does and can. -/
def written : FileTree := call.plan.written call.command call.prepared

/-- A call reports success. -/
def Succeeds : Prop := ∃ outcome, call.outcome? = some outcome ∧ outcome.success = true

/-- A call raises and reports nothing. -/
def Raises : Prop := call.outcome? = none

/-- A call has started its process, and that has written a file. -/
structure WritesAt (place : Place) : Prop where
  started : call.before.station.processes.length < call.after.station.processes.length
  writes : call.plan.writes = true
  located : call.prepared.locate call.path = .ok place
  free : call.prepared.node? place ≠ some .folder

/-- Whoever cancels, or is told how far the encoder has come, touches no file and starts no process. -/
def StandsAlone : Prop :=
  ∀ files count,
    RunOptions.Keep { controls := call.controls, onUpdate := call.onUpdate } (Scene.Has files count)

/-- How a call ends: its proxy was there; it was made; it was not, and what there is of it is removed; or
the call raises, and leaves the files to which it had come. -/
inductive Ends : Prop
  | reused (there : call.before.station.files.pathExists call.path = true)
    (reported : call.outcome? = some
      { mediaId := call.item.id, success := true, path := some call.path, skipped := true })
    (same : call.after = call.before)
  | made {outcome : ProxyOutcome} (reported : call.outcome? = some outcome)
    (success : outcome.success = true) (fresh : outcome.skipped = false)
    (left : call.after.Has call.written (call.before.station.processes.length + 1))
  | gaveUp {outcome : ProxyOutcome} {files : FileTree} (reported : call.outcome? = some outcome)
    (failure : outcome.success = false) (fresh : outcome.skipped = false)
    (reached : files = call.prepared ∨ files = call.written)
    (removed : files.remove call.path = .ok call.after.station.files)
  | raised (raises : call.Raises)
    (left : call.after.Has call.prepared call.before.station.processes.length ∨
      call.after.Has call.written (call.before.station.processes.length + 1))

variable {call} {place : Place} {content : List UInt8}

variable (call) in
/-- The process writes the proxy if it does and can; otherwise it leaves the files as they were. -/
theorem written_cases :
    call.written = call.prepared ∧ ¬ (call.plan.writes = true ∧ call.prepared.CanWrite call.path) ∨
      call.plan.writes = true ∧ ∃ place, call.prepared.locate call.path = .ok place ∧
        call.prepared.node? place ≠ some .folder ∧
        ∃ content, call.written = call.prepared.put place (.file content) := by
  have target : call.command.getLast?.getD "" = call.path := by
    unfold command proxyCommand
    rw [List.getLast?_concat, Option.getD_some]
  unfold written ProcessPlan.written
  rw [target]
  cases writes : call.plan.writes with
  | false => exact .inl ⟨rfl, fun h => absurd h.1 (by simp)⟩
  | true =>
    unfold FileTree.writeText
    cases wrote : call.prepared.write call.path (Text.Utf8.encode "fake media") with
    | error cause =>
      refine .inl ⟨rfl, fun h => ?_⟩
      obtain ⟨after, done⟩ := h.2.write (Text.Utf8.encode "fake media")
      exact absurd (wrote.symm.trans done) (by simp)
    | ok after =>
      obtain ⟨place, located, free, rfl⟩ := FileTree.write_eq_ok.mp wrote
      exact .inr ⟨rfl, place, located, free, _, rfl⟩

/-- What stands in the files that were written was written now, or stood there before. -/
theorem file_of_written (h : call.written.node? place = some (.file content)) :
    call.prepared.node? place = some (.file content) ∨
      call.plan.writes = true ∧ call.prepared.locate call.path = .ok place ∧
        call.prepared.node? place ≠ some .folder := by
  rcases written_cases call with ⟨same, -⟩ | ⟨writes, target, located, free, content', wrote⟩
  · exact .inl (same ▸ h)
  · by_cases here : place = target
    · exact .inr ⟨writes, here ▸ located, here ▸ free⟩
    · rw [wrote, FileTree.node?_put_of_ne here] at h
      exact .inl h

/-- The folders are the same when the proxy is written, so its path leads to the same place. -/
theorem locate_written (h : call.prepared.locate call.path = .ok place) :
    call.written.locate call.path = .ok place := by
  rcases written_cases call with ⟨same, -⟩ | ⟨-, target, -, free, content, wrote⟩
  · exact same ▸ h
  · rw [wrote]
    exact (FileTree.sameFolders_put free).keeps.locate h

theorem sameFiles_prepared : call.before.station.files.SameFiles call.prepared := by
  unfold prepared
  cases made : call.before.station.files.makeFolders call.maker.folder with
  | error cause => exact .refl _
  | ok files => exact FileTree.sameFiles_of_makeFolders made

/-- The files when a call has come to its end are those that it has prepared or written. -/
def Reaches (call : Call σ) (scene : Scene σ) : Prop :=
  scene.Has call.prepared call.before.station.processes.length ∨
    scene.Has call.written (call.before.station.processes.length + 1)

/-- What a call leaves that returns, though its proxy was not there. -/
def Reports (call : Call σ) (outcome : ProxyOutcome) (scene : Scene σ) : Prop :=
  outcome.skipped = false ∧
    (outcome.success = true ∧ scene.Has call.written (call.before.station.processes.length + 1) ∨
      outcome.success = false ∧ ∃ files, (files = call.prepared ∨ files = call.written) ∧
        files.remove call.path = .ok scene.station.files)

section Steps

-- To unfold what an action ensures is to run the action; here it is known by the lemmas about it.
attribute [local irreducible] Ensures Resolves

/-- A call that gives up removes the proxy, or it raises and leaves the files alone. -/
theorem giveUp_ensures {scene : Scene σ} (reached : call.Reaches scene) (cancelled : Bool)
    (error : Option String) :
    Ensures (call.maker.giveUp call.item cancelled error) scene call.Reports call.Reaches := by
  unfold giveUp
  rw [ensures_bind]
  refine resolves_iff_ensures.mp (resolves_onFiles (fun files removed => ?_) fun _ _ => reached)
  rcases reached with has | has
  · rw [has.files] at removed
    exact ensures_pure.mpr ⟨rfl, .inr ⟨rfl, _, .inl rfl, removed⟩⟩
  · rw [has.files] at removed
    exact ensures_pure.mpr ⟨rfl, .inr ⟨rfl, _, .inr rfl, removed⟩⟩

/-- The folder of the proxies is made, or the call raises. -/
theorem prepare_ensures :
    Ensures (SceneAction.onFiles fun files => files.makeFolders call.maker.folder) call.before
      (fun _ next => next.Has call.prepared call.before.station.processes.length ∧
        next.station.plans.headD {} = call.plan)
      (Scene.Has call.prepared call.before.station.processes.length) := by
  unfold prepared
  refine resolves_iff_ensures.mp (resolves_onFiles (fun files made => ?_) fun cause failed => ?_)
  · rw [made]
    exact ⟨⟨rfl, rfl⟩, rfl⟩
  · rw [failed]
    exact ⟨rfl, rfl⟩

/-- A call whose proxy is not there. -/
theorem make_cases (alone : call.StandsAlone)
    (missing : call.before.station.files.pathExists call.path = false) :
    (∃ outcome, call.outcome? = some outcome ∧ call.Reports outcome call.after) ∨
      call.Raises ∧ call.Reaches call.after := by
  have keep (key : Option String) (duration : Option Double) (files : FileTree) (count : Nat) :
      RunOptions.Keep { key, duration, controls := call.controls, onUpdate := call.onUpdate }
        (Scene.Has files count) :=
    ⟨(alone files count).cancel, (alone files count).runAgain, (alone files count).onUpdate⟩
  unfold Raises outcome? after
  refine Ensures.value ?_
  unfold action make
  rw [ensures_bind, ensures_station, if_neg (by rw [← path, missing]; simp), ensures_bind]
  refine prepare_ensures.mono ?_ fun _ => .inl
  intro _ middle ⟨has, planned⟩
  rw [ensures_bind]
  refine Ensures.mono (run_writes (keep _ _) planned has call.command) ?_ fun _ => id
  intro result next reached
  split
  · exact giveUp_ensures (reached.imp_left And.left) true _
  split
  · exact giveUp_ensures (reached.imp_left And.left) false _
  · next success =>
    rw [Bool.not_eq_true', Bool.not_eq_false] at success
    rcases reached with ⟨-, failure⟩ | has
    · exact absurd (success.symm.trans failure) (by simp)
    · exact ensures_pure.mpr ⟨rfl, .inl ⟨rfl, has⟩⟩

end Steps

/-- A call whose proxy is there does nothing. -/
theorem action_of_pathExists (there : call.before.station.files.pathExists call.path = true) :
    call.action call.before = .ok
      { mediaId := call.item.id, success := true, path := some call.path, skipped := true }
      call.before := by
  unfold action make
  refine (bind_of_ok rfl).trans ?_
  rw [← path, if_pos there]
  rfl

/-- How a call ends that stands alone. -/
theorem ends (alone : call.StandsAlone) : call.Ends := by
  cases there : call.before.station.files.pathExists call.path with
  | true =>
    have returned := action_of_pathExists there
    apply Ends.reused there
    · unfold outcome? value?
      rw [returned]
    · unfold after leaves
      rw [returned]
  | false =>
    rcases make_cases alone there with ⟨outcome, reported, fresh, left⟩ | ⟨raises, left⟩
    · rcases left with ⟨success, left⟩ | ⟨failure, files, reached, removed⟩
      · exact .made reported success fresh left
      · exact .gaveUp reported failure fresh reached removed
    · exact .raised raises left

/-! ### What a call leaves -/

/-- A call that returns and has not made its proxy leaves nothing at its path. -/
theorem not_pathExists_of_reports (alone : call.StandsAlone) (returns : ¬ call.Raises)
    (failure : ¬ call.Succeeds) : call.after.station.files.pathExists call.path = false := by
  cases ends alone with
  | reused there reported same => exact absurd ⟨_, reported, rfl⟩ failure
  | made reported success fresh left => exact absurd ⟨_, reported, success⟩ failure
  | gaveUp reported _ fresh reached removed => exact FileTree.pathExists_remove removed
  | raised raises left => exact absurd raises returns

/-- A call that raises leaves what its process has written, and a folder that it has made. -/
theorem pathExists_of_raises (alone : call.StandsAlone) (raises : call.Raises) :
    call.after.station.files.pathExists call.path = true ↔
      (∃ place, call.WritesAt place) ∨ call.prepared.pathExists call.path = true := by
  have left : call.Reaches call.after := by
    cases ends alone with
    | reused there reported same => exact absurd (raises.symm.trans reported) (by simp)
    | made reported success fresh left => exact absurd (raises.symm.trans reported) (by simp)
    | gaveUp reported _ fresh reached removed => exact absurd (raises.symm.trans reported) (by simp)
    | raised raises left => exact left
  rcases left with has | has
  · rw [has.files]
    refine ⟨.inr, fun h => h.elim (fun ⟨place, writes⟩ => ?_) id⟩
    exact absurd writes.started (by rw [has.processes]; exact lt_irrefl _)
  · have started : call.before.station.processes.length < call.after.station.processes.length := by
      rw [has.processes]
      exact Nat.lt_succ_self _
    rw [has.files]
    rcases written_cases call with ⟨same, idle⟩ | ⟨writes, place, located, free, content, wrote⟩
    · rw [same]
      refine ⟨.inr, fun h => h.elim (fun ⟨place, writes⟩ => ?_) id⟩
      exact absurd ⟨writes.writes, place, writes.located, writes.free⟩ idle
    · refine iff_of_true ?_ (.inl ⟨place, started, writes, located, free⟩)
      have below : place ≠ [] := by
        rintro rfl
        exact free FileTree.node?_root
      refine FileTree.pathExists_iff.mpr ⟨place, locate_written located, ?_⟩
      rw [wrote, FileTree.node?_put_self below]
      simp

/-- A file that a call leaves was there before, or the process of the call has written it. A call that
returns and has not made its proxy leaves none that is new. -/
theorem origin (alone : call.StandsAlone)
    (there : call.after.station.files.node? place = some (.file content)) :
    call.before.station.files.node? place = some (.file content) ∨
      call.WritesAt place ∧ (call.Succeeds ∨ call.Raises) := by
  have before (h : call.prepared.node? place = some (.file content)) :
      call.before.station.files.node? place = some (.file content) :=
    (sameFiles_prepared place content).mp h
  have written (has : call.after.Has call.written (call.before.station.processes.length + 1)) :
      call.before.station.files.node? place = some (.file content) ∨ call.WritesAt place := by
    rw [has.files] at there
    refine (file_of_written there).imp before fun ⟨writes, located, free⟩ => ?_
    exact ⟨by rw [has.processes]; exact Nat.lt_succ_self _, writes, located, free⟩
  cases ends alone with
  | reused _ reported same => exact .inl (same ▸ there)
  | made reported success fresh left =>
    exact (written left).imp_right fun writes => ⟨writes, .inl ⟨_, reported, success⟩⟩
  | gaveUp reported _ fresh reached removed =>
    obtain ⟨kept, away⟩ := FileTree.file_of_remove removed there
    rcases reached with rfl | rfl
    · exact .inl (before kept)
    · -- The file that the process has written is the one that was removed.
      rcases file_of_written kept with old | ⟨-, located, -⟩
      · exact .inl (before old)
      · exact absurd (locate_written located) away
  | raised raises left =>
    rcases left with has | has
    · rw [has.files] at there
      exact .inl (before there)
    · exact (written has).imp_right fun writes => ⟨writes, .inr raises⟩

/-- A proxy that is used again was there, and nothing is done for it. -/
theorem reused (alone : call.StandsAlone) {outcome : ProxyOutcome}
    (reported : call.outcome? = some outcome) (skipped : outcome.skipped = true) :
    outcome.success = true ∧ call.before.station.files.pathExists call.path = true ∧
      call.after = call.before := by
  cases ends alone with
  | reused there reported' same =>
    obtain rfl := Option.some.inj (reported.symm.trans reported')
    exact ⟨rfl, there, same⟩
  | made reported' success fresh left =>
    obtain rfl := Option.some.inj (reported.symm.trans reported')
    exact absurd (skipped.symm.trans fresh) (by simp)
  | gaveUp reported' failure fresh reached removed =>
    obtain rfl := Option.some.inj (reported.symm.trans reported')
    exact absurd (skipped.symm.trans fresh) (by simp)
  | raised raises left => exact absurd (reported.symm.trans raises) (by simp)

/-- A proxy that is made now is what its process has written. -/
theorem made_of_fresh (alone : call.StandsAlone) {outcome : ProxyOutcome}
    (reported : call.outcome? = some outcome) (success : outcome.success = true)
    (fresh : outcome.skipped = false) :
    call.after.station.files = call.written ∧
      call.before.station.processes.length < call.after.station.processes.length := by
  cases ends alone with
  | reused there reported' same =>
    obtain rfl := Option.some.inj (reported.symm.trans reported')
    exact absurd fresh (by simp)
  | made reported' success' fresh' left =>
    exact ⟨left.files, by rw [left.processes]; exact Nat.lt_succ_self _⟩
  | gaveUp reported' failure fresh' reached removed =>
    obtain rfl := Option.some.inj (reported.symm.trans reported')
    exact absurd (success.symm.trans failure) (by simp)
  | raised raises left => exact absurd (reported.symm.trans raises) (by simp)

end Call

/-! ### Calls one after the other -/

/-- Calls one after the other, between which nobody touches a file. -/
def InTurn : FileTree → List (Call σ) → Prop
  | _, [] => True
  | files, call :: rest => call.before.station.files = files ∧ InTurn call.after.station.files rest

variable {calls : List (Call σ)} {files : FileTree} {place : Place} {content : List UInt8}

/-- A file that a call finds was there at first, or the process of an earlier one has written it. -/
theorem InTurn.origin (alone : ∀ call ∈ calls, call.StandsAlone) (inTurn : InTurn files calls)
    {earlier later : List (Call σ)} {call : Call σ} (split : calls = earlier ++ call :: later)
    (there : call.before.station.files.node? place = some (.file content)) :
    files.node? place = some (.file content) ∨
      ∃ other ∈ earlier, other.WritesAt place ∧ (other.Succeeds ∨ other.Raises) := by
  induction earlier generalizing calls files with
  | nil =>
    subst split
    exact .inl (inTurn.1 ▸ there)
  | cons first rest ih =>
    subst split
    obtain ⟨same, behind⟩ := inTurn
    have alone' := List.forall_mem_cons.mp alone
    rcases ih alone'.2 behind rfl with old | ⟨other, among, wrote⟩
    · rcases Call.origin alone'.1 old with old | wrote
      · exact .inl (same ▸ old)
      · exact .inr ⟨first, List.mem_cons_self, wrote⟩
    · exact .inr ⟨other, List.mem_cons_of_mem _ among, wrote⟩

/-- A call that reports no success leaves something at the path of its proxy only if it raises, and then
exactly if its process has written the file, or the folder for the proxies lies at that very path. A proxy
that is made now is what its process has written. And one that is used again was there at first, was
made by an earlier call that reported success, or was left by one that raised. -/
theorem InTurn.leaves_proxies (alone : ∀ call ∈ calls, call.StandsAlone) (inTurn : InTurn files calls) :
    (∀ call ∈ calls, ¬ call.Succeeds →
      (call.after.station.files.pathExists call.path = true ↔ call.Raises ∧
        ((∃ place, call.WritesAt place) ∨ call.prepared.pathExists call.path = true))) ∧
    (∀ call ∈ calls, ∀ outcome, call.outcome? = some outcome → outcome.success = true →
      outcome.skipped = false → call.after.station.files = call.written ∧
        call.before.station.processes.length < call.after.station.processes.length) ∧
    ∀ earlier call later outcome, calls = earlier ++ call :: later →
      call.outcome? = some outcome → outcome.skipped = true →
      outcome.success = true ∧ call.after = call.before ∧
        ∃ place, call.before.station.files.locate call.path = .ok place ∧
          (call.before.station.files.node? place = some .folder ∨
            ∃ content, call.before.station.files.node? place = some (.file content) ∧
              (files.node? place = some (.file content) ∨
                ∃ other ∈ earlier, other.WritesAt place ∧ (other.Succeeds ∨ other.Raises))) := by
  refine ⟨fun call among failure => ?_, fun call among outcome reported success fresh => ?_, ?_⟩
  · by_cases raises : call.Raises
    · rw [Call.pathExists_of_raises (alone call among) raises]
      exact (and_iff_right raises).symm
    · rw [Call.not_pathExists_of_reports (alone call among) raises failure]
      exact ⟨fun h => absurd h (by simp), fun h => absurd h.1 raises⟩
  · exact Call.made_of_fresh (alone call among) reported success fresh
  · intro earlier call later outcome split reported skipped
    have among : call ∈ calls := split ▸ List.mem_append_right _ List.mem_cons_self
    obtain ⟨success, there, same⟩ := Call.reused (alone call among) reported skipped
    obtain ⟨place, located, some⟩ := FileTree.pathExists_iff.mp there
    refine ⟨success, same, place, located, ?_⟩
    cases node : call.before.station.files.node? place with
    | none => exact absurd node some
    | some found =>
      cases found with
      | folder => exact .inl rfl
      | file content => exact .inr ⟨content, rfl, inTurn.origin alone split node⟩

/-! ### Two calls for one film -/

namespace OneFilm

/-- A call whose process will do something. -/
def call (plan : ProcessPlan) (files : FileTree) : Call Unit where
  maker := { folder := Path.ofText "proxies", scale := 1, encoderPath := "encoder" }
  controls := { cancel := pure .done }
  onUpdate _ := pure ()
  item := { id := "film", type := .video, path := "film.mp4" }
  before := { station := { grace := 1, tailLength := 0, plans := [plan], files }, job := () }

variable (plan : ProcessPlan) (files : FileTree)

theorem call_files : (call plan files).before.station.files = files := rfl

theorem call_standsAlone : (call plan files).StandsAlone := fun _ _ =>
  ⟨keepsCourse_pure trivial, Keeps.pure, fun _ _ => Keeps.pure⟩

/-- The task of a call is stopped while the encoder writes. -/
def stopped : Call Unit := call { output := [.meanwhile .stopTask] } {}

/-- The call after that. -/
def again : Call Unit := call {} stopped.after.station.files

/-- The encoder reports a number that cannot be read. -/
def garbled : Call Unit :=
  call { output := [.data ("out_time_us=--5\nprogress=end\n".toList.map fun c => c.toNat.toUInt8)] } {}

theorem standAlone : ∀ call ∈ [stopped, again], call.StandsAlone := by
  intro call among
  rcases List.mem_pair.mp among with rfl | rfl
  · exact call_standsAlone _ _
  · exact call_standsAlone _ _

theorem inTurn : InTurn {} [stopped, again] := ⟨call_files _ _, call_files _ _, trivial⟩

theorem again_skips :
    again.outcome?.map (fun outcome => (outcome.success, outcome.skipped)) = some (true, true) := by
  decide +kernel

end OneFilm

/-- The proxy that is used again is what the process of the stopped call has written. -/
theorem stopped_call_leaves_proxy :
    (∀ call ∈ [OneFilm.stopped, OneFilm.again], call.StandsAlone) ∧
    InTurn {} [OneFilm.stopped, OneFilm.again] ∧
    ∃ place, OneFilm.again.before.station.files.locate OneFilm.again.path = .ok place ∧
      OneFilm.stopped.WritesAt place ∧ (OneFilm.stopped.Succeeds ∨ OneFilm.stopped.Raises) := by
  refine ⟨OneFilm.standAlone, OneFilm.inTurn, ?_⟩
  obtain ⟨outcome, reported, skips⟩ := Option.map_eq_some_iff.mp OneFilm.again_skips
  obtain ⟨-, -, found⟩ := OneFilm.inTurn.leaves_proxies OneFilm.standAlone
  obtain ⟨-, -, place, located, stands⟩ := found [OneFilm.stopped] OneFilm.again [] outcome rfl reported
    (congrArg Prod.snd skips)
  refine ⟨place, located, ?_⟩
  rcases stands with folder | ⟨content, -, first | ⟨other, among, wrote⟩⟩
  · have none : OneFilm.again.before.station.files.isFolder OneFilm.again.path = false := by decide +kernel
    exact absurd (none.symm.trans (FileTree.isFolder_iff.mpr ⟨place, located, folder⟩)) (by simp)
  · unfold FileTree.node? at first
    split at first
    · exact absurd first (by simp)
    · exact absurd first (by simp)
  · exact List.mem_singleton.mp among ▸ wrote

/-- A call whose task is stopped leaves a part of the proxy, and the next call takes it for the whole. A
call that cannot read a report of the encoder leaves one, too. -/
theorem exists_partial_proxy :
    (InTurn {} [OneFilm.stopped, OneFilm.again] ∧ ¬ OneFilm.stopped.Succeeds ∧
      OneFilm.stopped.after.station.files.pathExists OneFilm.stopped.path = true ∧
      OneFilm.again.outcome?.map (fun outcome => (outcome.success, outcome.skipped)) = some (true, true)) ∧
    ¬ OneFilm.garbled.Succeeds ∧
      OneFilm.garbled.after.station.files.pathExists OneFilm.garbled.path = true := by
  have raises {call : Call Unit} (h : call.outcome?.isNone = true) : ¬ call.Succeeds := by
    rintro ⟨outcome, reported, -⟩
    rw [reported] at h
    exact absurd h (by simp)
  refine ⟨⟨OneFilm.inTurn, raises ?_, ?_, OneFilm.again_skips⟩, raises ?_, ?_⟩ <;> decide +kernel

end ProxyMaker

end Montage
