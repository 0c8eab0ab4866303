import Montage.Proofs.Number.Share
import Montage.Proofs.Preview.Stop

/-!
# One percentage runs through both phases

The reports of a preview fill one bar. Proxies fill it up to a mark, the share of their phase in the
whole, and the render fills the rest. Every report is at least as far as the one before it, since the
percentage only grows, and no proxy gets beyond the mark, since what is done of the proxies is a share of
all of them. The bar is emptied when a preview begins, and full when one is completed.

## Main definitions

* `OneBar` — reports of two phases that fill one bar
* `Bar` — the bar, and the percentage at which it stands
* `Watches` — what listeners do: anything that leaves the bar as it is

## Main results

* `Bar.tellProxy`, `Bar.tellRender` — one more report in either phase
* `watches_cancel`, `watches_run` — a listener may end the preview, or try to make another one
* `PreviewMaker.makeProxies_fills`, `PreviewMaker.renderWith_fills` — the phases fill the bar
* `PreviewMaker.run_fills_one_bar` — so does every preview, from an empty bar to a full one
-/

namespace Montage

open SceneAction

/-! ### Percentages -/

namespace Double

variable {x y bound : Double}

theorem isPercentage_iff : x.IsPercentage ↔ ∃ n ≤ 100 * one, x.At n := by
  constructor
  · rintro ⟨low, high⟩
    exact exists_at_of_le low high at_hundred
  · rintro ⟨n, atMost, place⟩
    exact ⟨(at_zero.le_iff place).mpr (Nat.zero_le n), (place.le_iff at_hundred).mpr atMost⟩

theorem IsPercentage.isSome (h : x.IsPercentage) : x.position?.isSome := by
  obtain ⟨n, -, place, -⟩ := isPercentage_iff.mp h
  exact Option.isSome_iff_exists.mpr ⟨n, place⟩

theorem IsPercentage.le_refl (h : x.IsPercentage) : x ≤ x := by
  obtain ⟨n, -, place⟩ := isPercentage_iff.mp h
  exact (place.le_iff place).mpr (Nat.le_refl n)

theorem minOf_hundred_le (x : Double) : Scalar.minOf 100 x ≤ 100 := by
  unfold Scalar.minOf
  split
  · next less => exact le_of_lt less
  · exact isPercentage_hundred.le_refl

/-- Cut off at 100, a number stays below what it was below. -/
theorem minOf_hundred_le_of_le (h : x ≤ bound) : Scalar.minOf 100 x ≤ bound := by
  unfold Scalar.minOf
  split
  · exact h
  · next notLess =>
    obtain ⟨a, b, ha, -, -⟩ := Double.le_iff.mp h
    exact Double.le_trans
      (le_of_not_lt (Option.isSome_iff_exists.mpr ⟨a, ha⟩) isPercentage_hundred.isSome notLess) h

theorem minOf_hundred (h : x.IsPercentage) : x ≤ Scalar.minOf 100 x := by
  unfold Scalar.minOf
  split
  · exact h.le_refl
  · exact h.2

theorem le_maxOf_left (h : x.IsPercentage) (y : Double) : x ≤ Scalar.maxOf x y := by
  unfold Scalar.maxOf
  split
  · next less => exact le_of_lt less
  · exact h.le_refl

theorem le_maxOf_right (hx : x.IsPercentage) (hy : y.position?.isSome) : y ≤ Scalar.maxOf x y := by
  obtain ⟨a, ha⟩ := Option.isSome_iff_exists.mp hy
  unfold Scalar.maxOf
  split
  · exact Double.le_iff.mpr ⟨a, a, ha, ha, Int.le_refl a⟩
  · next notLess => exact le_of_not_lt hx.isSome hy notLess

/-- The greater of a percentage and a number that is cut off at 100 is a percentage. -/
theorem isPercentage_maxOf (h : x.IsPercentage) (y : Double) :
    (Scalar.maxOf x (Scalar.minOf 100 y)).IsPercentage :=
  ⟨Double.le_trans h.1 (le_maxOf_left h _), maxOf_le h.2 (minOf_hundred_le y)⟩

/-- What is at most zero leaves zero as it is. -/
theorem maxOf_zero (h : x ≤ Scalar.zero) :
    Scalar.maxOf Scalar.zero (Scalar.minOf 100 x) = Scalar.zero :=
  if_neg fun less => not_le_of_lt less (minOf_hundred_le_of_le h)

end Double

/-! ### The bar -/

/-- Reports fill one bar: with percentages, never falling, the first of them at zero; first the proxies,
up to a mark, and then the render, from the mark on if anything was to be done before. -/
structure OneBar (mark : Double) (waits : Prop) (reports : List (PreviewReport Double)) : Prop where
  valid : ∀ report ∈ reports, report.overall.IsPercentage ∧ report.ofPhase.IsPercentage
  onward : reports.Pairwise fun early late => early.overall ≤ late.overall
  phases : ∃ proxies renders, reports = proxies ++ renders ∧
    (∀ report ∈ proxies, report.phase = .proxy ∧ report.overall ≤ mark) ∧
    ∀ report ∈ renders, report.phase = .render ∧ (waits → mark ≤ report.overall)
  fromZero : ∀ report ∈ reports.head?, report.overall = Scalar.zero

/-- A bar in a phase, and the percentage at which it stands; whether anything was told is known. -/
structure Bar (mark : Double) (waits : Prop) (phase : PreviewPhase) (told : Prop)
    (reports : List (PreviewReport Double)) (overall : Double) : Prop extends
    OneBar mark waits reports where
  upTo : ∀ report ∈ reports, report.overall ≤ overall
  percentage : overall.IsPercentage
  empty : reports = [] → overall = Scalar.zero
  told : told → reports ≠ []
  stands : match phase with
    | .proxy => (∀ report ∈ reports, report.phase = .proxy) ∧ overall ≤ mark
    | .render => waits → mark ≤ overall

/-- A bar whose last report is at 100. -/
def FullBar (mark : Double) (waits : Prop) (reports : List (PreviewReport Double)) (_ : Double) : Prop :=
  OneBar mark waits reports ∧ ∃ last ∈ reports.getLast?, last.overall = 100

/-- The next report of a preview that stands at a percentage. -/
def nextReport (overall : Double) (phase : PreviewPhase) (percent ofPhase : Double) (task : String) :
    PreviewReport Double where
  phase
  overall := Scalar.maxOf overall (Scalar.minOf 100 percent)
  ofPhase := Scalar.maxOf Scalar.zero (Scalar.minOf 100 ofPhase)
  task

namespace Bar

variable {mark overall percent : Double} {waits told : Prop} {phase : PreviewPhase}
  {reports : List (PreviewReport Double)}

protected theorem nil {place : Nat} (h : mark.At place) : Bar mark waits .proxy False [] Scalar.zero where
  valid _ h := absurd h List.not_mem_nil
  onward := .nil
  phases := ⟨[], [], rfl, fun _ h => absurd h List.not_mem_nil, fun _ h => absurd h List.not_mem_nil⟩
  fromZero _ h := absurd h (by simp)
  upTo _ h := absurd h List.not_mem_nil
  percentage := Double.isPercentage_zero
  empty _ := rfl
  told h := h.elim
  stands := ⟨fun _ h => absurd h List.not_mem_nil, (Double.at_zero.le_iff h).mpr (Nat.zero_le place)⟩

/-- What one more report adds to a bar, whatever its phase. -/
structure Grows (reports : List (PreviewReport Double)) (next : PreviewReport Double) : Prop where
  valid : ∀ report ∈ reports ++ [next], report.overall.IsPercentage ∧ report.ofPhase.IsPercentage
  onward : (reports ++ [next]).Pairwise fun early late => early.overall ≤ late.overall
  fromZero : ∀ report ∈ (reports ++ [next]).head?, report.overall = Scalar.zero
  upTo : ∀ report ∈ reports ++ [next], report.overall ≤ next.overall

theorem grows (h : Bar mark waits phase told reports overall) (first : told ∨ percent ≤ Scalar.zero)
    (phase' : PreviewPhase) (ofPhase : Double) (task : String) :
    Grows reports (nextReport overall phase' percent ofPhase task) := by
  have grown : overall ≤ (nextReport overall phase' percent ofPhase task).overall :=
    Double.le_maxOf_left h.percentage _
  have valid := Double.isPercentage_maxOf h.percentage percent
  refine ⟨fun report mem => ?_, ?_, ?_, fun report mem => ?_⟩
  · rcases List.mem_append.mp mem with old | new
    · exact h.valid report old
    · obtain rfl := List.mem_singleton.mp new
      exact ⟨valid, Double.isPercentage_maxOf Double.isPercentage_zero ofPhase⟩
  · refine List.pairwise_append.mpr ⟨h.onward, List.pairwise_singleton .., fun early mem late last => ?_⟩
    obtain rfl := List.mem_singleton.mp last
    exact Double.le_trans (h.upTo early mem) grown
  · cases reports with
    | nil =>
      intro report head
      obtain rfl : nextReport overall phase' percent ofPhase task = report := by simpa using head
      have start := first.resolve_left fun told => h.told told rfl
      unfold nextReport
      rw [h.empty rfl]
      exact Double.maxOf_zero start
    | cons report rest => exact h.fromZero
  · rcases List.mem_append.mp mem with old | new
    · exact Double.le_trans (h.upTo report old) grown
    · obtain rfl := List.mem_singleton.mp new
      exact valid.le_refl

/-- One more report on the proxies. -/
theorem tellProxy (h : Bar mark waits .proxy told reports overall)
    (first : told ∨ percent ≤ Scalar.zero) (within : percent ≤ mark) (ofPhase : Double) (task : String) :
    Bar mark waits .proxy True (reports ++ [nextReport overall .proxy percent ofPhase task])
      (nextReport overall .proxy percent ofPhase task).overall := by
  obtain ⟨valid, onward, fromZero, upTo⟩ := h.grows first .proxy ofPhase task
  obtain ⟨proxies, atMost⟩ := h.stands
  have within : (nextReport overall .proxy percent ofPhase task).overall ≤ mark :=
    Double.maxOf_le atMost (Double.minOf_hundred_le_of_le within)
  have all : ∀ report ∈ reports ++ [nextReport overall .proxy percent ofPhase task],
      report.phase = .proxy := by
    intro report mem
    rcases List.mem_append.mp mem with old | new
    · exact proxies report old
    · obtain rfl := List.mem_singleton.mp new
      rfl
  exact {
    valid, onward, fromZero, upTo
    phases := ⟨_, [], (List.append_nil _).symm,
      fun report mem => ⟨all report mem, Double.le_trans (upTo report mem) within⟩,
      fun _ h => absurd h List.not_mem_nil⟩
    percentage := Double.isPercentage_maxOf h.percentage percent
    empty := fun none => absurd none (by simp)
    told := fun _ => by simp
    stands := ⟨all, within⟩ }

/-- One more report on the render. -/
theorem tellRender (h : Bar mark waits .render told reports overall)
    (first : told ∨ percent ≤ Scalar.zero) (ofPhase : Double) (task : String) :
    Bar mark waits .render True (reports ++ [nextReport overall .render percent ofPhase task])
      (nextReport overall .render percent ofPhase task).overall := by
  obtain ⟨valid, onward, fromZero, upTo⟩ := h.grows first .render ofPhase task
  have reached (some : waits) : mark ≤ (nextReport overall .render percent ofPhase task).overall :=
    Double.le_trans (h.stands some) (Double.le_maxOf_left h.percentage _)
  obtain ⟨proxies, renders, split, early, late⟩ := h.phases
  exact {
    valid, onward, fromZero, upTo
    phases := by
      refine ⟨proxies, renders ++ [nextReport overall .render percent ofPhase task], ?_, early,
        fun report mem => ?_⟩
      · rw [split, List.append_assoc]
      · rcases List.mem_append.mp mem with old | new
        · exact late report old
        · obtain rfl := List.mem_singleton.mp new
          exact ⟨rfl, reached⟩
    percentage := Double.isPercentage_maxOf h.percentage percent
    empty := fun none => absurd none (by simp)
    told := fun _ => by simp
    stands := reached }

/-- A report of 100 on the render fills the bar. -/
theorem full (h : Bar mark waits .render told reports overall) (told : told) (ofPhase : Double)
    (task : String) : FullBar mark waits (reports ++ [nextReport overall .render 100 ofPhase task])
      (nextReport overall .render 100 ofPhase task).overall := by
  have whole : Scalar.minOf 100 (100 : Double) = 100 := by
    unfold Scalar.minOf
    split <;> rfl
  refine ⟨(h.tellRender (.inl told) _ _).toOneBar, nextReport overall .render 100 ofPhase task, ?_, ?_⟩
  · rw [List.getLast?_concat]
    rfl
  · unfold nextReport
    rw [whole, Double.maxOf_hundred h.percentage.2]

/-- The proxies are made, and the bar stands at the mark if there were any. -/
theorem toRender (h : Bar mark waits .proxy told reports overall) (reached : waits → mark ≤ overall) :
    Bar mark waits .render told reports overall :=
  { h with stands := reached }

/-- The last report on the proxies brings the bar to the mark. -/
theorem tellReady (h : Bar mark waits .proxy told reports overall) (some : told)
    (percentage : mark.IsPercentage) (ofPhase : Double) (task : String) :
    Bar mark waits .render True (reports ++ [nextReport overall .proxy mark ofPhase task])
      (nextReport overall .proxy mark ofPhase task).overall := by
  refine (h.tellProxy (.inl some) percentage.le_refl ofPhase task).toRender fun _ => ?_
  have reached := Double.minOf_hundred percentage
  obtain ⟨-, b, -, hb, -⟩ := Double.le_iff.mp reached
  exact Double.le_trans reached
    (Double.le_maxOf_right h.percentage (Option.isSome_iff_exists.mpr ⟨b, hb⟩))

theorem weaken {told' : Prop} (h : Bar mark waits phase told reports overall) (less : told' → told) :
    Bar mark waits phase told' reports overall :=
  { h with told := fun some => h.told (less some) }

end Bar

/-! ### Who looks on -/

/-- A preview runs and what it has told is left as it was. -/
structure Untouched (before after : Scene PreviewJob) : Prop where
  running : after.job.running = true
  overall : after.job.overall = before.job.overall
  reports : after.job.reports = before.job.reports

/-- An action of someone who leaves the bar as it is; the action may end the preview, or fail. -/
def Watches {α : Type} (action : PreviewAction α) : Prop := ∀ before, Keeps (Untouched before) action

/-- Listeners of a preview who leave the bar as it is. -/
structure PreviewMaker.Audience.Watches (audience : PreviewMaker.Audience) : Prop where
  onReport : ∀ report, Montage.Watches (audience.onReport report)
  onProxy : ∀ mediaId path, Montage.Watches (audience.onProxy mediaId path)

/-- A preview runs, and what it has told since some reports meets a condition. -/
def Showing (begun : List (PreviewReport Double)) (holds : List (PreviewReport Double) → Double → Prop)
    (scene : Scene PreviewJob) : Prop :=
  scene.job.running = true ∧
    ∃ reports, scene.job.reports = begun ++ reports ∧ holds reports scene.job.overall

section Showing

variable {begun : List (PreviewReport Double)} {scene before after : Scene PreviewJob} {α : Type}
  {holds holds' : List (PreviewReport Double) → Double → Prop}

theorem Showing.untouched (h : Showing begun holds before) (same : Untouched before after) :
    Showing begun holds after := by
  obtain ⟨-, reports, grown, shown⟩ := h
  exact ⟨same.running, reports, same.reports.trans grown, same.overall ▸ shown⟩

theorem Showing.imp (h : Showing begun holds scene)
    (weaken : ∀ reports overall, holds reports overall → holds' reports overall) :
    Showing begun holds' scene := by
  obtain ⟨running, reports, grown, shown⟩ := h
  exact ⟨running, reports, grown, weaken reports _ shown⟩

theorem Watches.showing {action : PreviewAction α} (h : Watches action) :
    Keeps (Showing begun holds) action := fun scene hscene =>
  (h scene scene ⟨hscene.1, rfl, rfl⟩).mono (fun _ _ => hscene.untouched) fun _ => hscene.untouched

theorem lasts_showing : Lasts (Showing begun holds) := fun _ _ h _ => h

theorem keeps_requestStop_showing : Keeps (Showing begun holds) PreviewMaker.requestStop :=
  fun _ h => h

/-- A listener may end the preview. -/
theorem watches_cancel : Watches PreviewMaker.cancel := fun _ =>
  PreviewMaker.keeps_cancel (fun _ _ same _ => ⟨same.running, same.overall, same.reports⟩)
    fun _ same => ⟨same.running, same.overall, same.reports⟩

/-- A listener may try to make another preview, which is refused. -/
theorem watches_run (maker : PreviewMaker) (now : Nat) (onProxy : String → String → PreviewAction Unit)
    (timeline : Timeline Double) (media : MediaLibrary)
    (onReport : PreviewReport Double → PreviewAction Unit) :
    Watches (maker.run now onProxy timeline media onReport) := by
  intro before scene same
  unfold PreviewMaker.run
  rw [ensures_bind, ensures_job]
  dsimp only
  rw [if_pos same.running]
  exact ensures_throw.mpr same

/-- A run of the encoder, of which percentages are told that keep the bar in order. -/
theorem run_showing (key : Option String) (duration : Option Double)
    {onUpdate : EncoderProgress → PreviewAction Unit}
    (told : ∀ update, update.percent.IsPercentage → Keeps (Showing begun holds) (onUpdate update))
    (command : List String) :
    Keeps (Showing begun holds)
      (SceneAction.run { key, duration, onUpdate, controls := PreviewMaker.controls } command) := by
  intro scene h
  have keep := PreviewMaker.keep_controls lasts_showing.persists keeps_requestStop_showing key duration told
  exact (lasts_showing.run lasts_showing keep (fun _ => id) h).mono (fun _ _ => id)
    fun _ => or_self_iff.mp

end Showing

namespace PreviewMaker

variable {maker : PreviewMaker} {audience : Audience} {begun : List (PreviewReport Double)}
  {scene : Scene PreviewJob} {mark : Double} {waits told : Prop}
  {holds holds' : List (PreviewReport Double) → Double → Prop}

-- To unfold what an action ensures is to run the action; here it is known by the lemmas about it.
attribute [local irreducible] Ensures

/-- A report adds to what is shown. -/
theorem report_showing (watches : audience.Watches) {phase : PreviewPhase} {percent ofPhase : Double}
    {task : String}
    (step : ∀ reports overall, holds reports overall →
      holds' (reports ++ [nextReport overall phase percent ofPhase task])
        (nextReport overall phase percent ofPhase task).overall)
    (h : Showing begun holds scene) :
    Ensures (report audience phase percent ofPhase task) scene (fun _ => Showing begun holds')
      (Showing begun holds') := by
  obtain ⟨running, reports, grown, shown⟩ := h
  unfold report
  rw [ensures_bind, ensures_job]
  dsimp only
  rw [ensures_bind, ensures_setJob]
  refine (watches.onReport _).showing _ ⟨running, _, ?_, step reports _ shown⟩
  dsimp only
  rw [grown, List.append_assoc]
  rfl

/-! ### The mark -/

section Mark

variable (weight : Scalar.zero ≤ maker.proxyWeight ∧ maker.proxyWeight ≤ 1)

include weight

theorem exists_at_mark : ∃ n ≤ 100 * Double.one, (maker.proxyWeight * 100).At n := by
  obtain ⟨w, atMost, place⟩ := Double.exists_at_of_le weight.1 weight.2 Double.at_one
  obtain ⟨n, atMost', place', -⟩ := place.share_mul atMost Double.at_hundred
  exact ⟨n, atMost', place'⟩

theorem isPercentage_mark : (maker.proxyWeight * 100).IsPercentage :=
  Double.isPercentage_iff.mpr (exists_at_mark weight)

/-- What is done before the proxy at some place is at most all of the phase; before the first, nothing. -/
theorem done_le_mark {place count : Nat} (finite : (Scalar.whole count : Double).isFinite = true)
    (among : place < count) :
    share (Scalar.whole place) count * (maker.proxyWeight * 100) ≤ maker.proxyWeight * 100 ∧
      (place = 0 → share (Scalar.whole place) count * (maker.proxyWeight * 100) ≤ Scalar.zero) := by
  obtain ⟨n, -, mark⟩ := exists_at_mark weight
  have whole := Double.at_count finite among.le
  have least : roundBits (place * Double.one) 1 ≤ roundBits (count * Double.one) 1 :=
    roundBits_mono Nat.one_pos (Nat.mul_le_mul_right _ among.le)
  obtain ⟨m, atMost, part, none⟩ := whole.div_le (Double.at_count finite (Nat.le_refl count))
    (Double.roundBits_count_pos (Nat.zero_lt_of_lt among)) least
  obtain ⟨k, below, product, none'⟩ := part.share_mul atMost mark
  refine ⟨(product.le_iff mark).mpr below, fun first => (product.le_iff Double.at_zero).mpr ?_⟩
  rw [none' (none (by rw [first, Nat.zero_mul, roundBits_zero]))]

/-- A proxy that is made up to some percentage does not go beyond the mark. -/
theorem proxy_le_mark {place count : Nat} (finite : (Scalar.whole count : Double).isFinite = true)
    (among : place < count) {percent : Double} (percentage : percent.IsPercentage) :
    share (Scalar.whole place + percent / 100) count * 100 * maker.proxyWeight ≤
      maker.proxyWeight * 100 := by
  obtain ⟨w, -, weight⟩ := Double.exists_at_of_le weight.1 weight.2 Double.at_one
  obtain ⟨p, atMost, place'⟩ := Double.isPercentage_iff.mp percentage
  obtain ⟨k, little, part, -⟩ := place'.div_le Double.at_hundred
    (Nat.mul_pos (by decide) Double.one_pos) atMost
  obtain ⟨m, below, done⟩ := Double.exists_at_share finite among part little
  obtain ⟨n, atMost', ofPhase, -⟩ := done.share_mul below Double.at_hundred
  exact ofPhase.mul_le_mul Double.at_hundred weight atMost'

end Mark

/-! ### The two phases -/

theorem keeps_giveUp_showing (proxies : ProxyMaker) (item : MediaFile) (cancelled : Bool)
    (error : Option String) : Keeps (Showing begun holds) (proxies.giveUp item cancelled error) :=
  (lasts_showing.onFiles _).bind fun _ => Keeps.pure

theorem keeps_make (proxies : ProxyMaker) {onUpdate : EncoderProgress → PreviewAction Unit}
    (told : ∀ update, update.percent.IsPercentage → Keeps (Showing begun holds) (onUpdate update))
    (item : MediaFile) : Keeps (Showing begun holds) (proxies.make controls onUpdate item) := by
  unfold ProxyMaker.make
  refine keeps_station.bind fun station => ?_
  split
  · exact Keeps.pure
  refine (lasts_showing.onFiles _).bind fun _ => (run_showing _ _ told _).bind fun result => ?_
  split
  · exact keeps_giveUp_showing proxies item true _
  split
  · exact keeps_giveUp_showing proxies item false _
  · exact Keeps.pure

/-- A preview that is made has told of one bar so far. -/
def Fills (begun : List (PreviewReport Double)) (mark : Double) (waits : Prop) : Scene PreviewJob → Prop :=
  Showing begun fun reports _ => OneBar mark waits reports

theorem fills_of_bar {phase : PreviewPhase} (h : Showing begun (Bar mark waits phase told) scene) :
    Fills begun mark waits scene :=
  h.imp fun _ _ => Bar.toOneBar

/-- The proxies fill the bar up to the mark at most. -/
theorem makeProxies_fills (watches : audience.Watches)
    (weight : Scalar.zero ≤ maker.proxyWeight ∧ maker.proxyWeight ≤ 1) {count place : Nat}
    (finite : (Scalar.whole count : Double).isFinite = true) {rest : List MediaFile}
    (counted : place + rest.length = count) (progress : Progress)
    (h : Showing begun (Bar (maker.proxyWeight * 100) waits .proxy (0 < place)) scene) :
    Ensures (maker.makeProxies audience (maker.proxyWeight * 100) count place rest progress) scene
      (fun ended next => match ended with
        | .ok _ => Showing begun (Bar (maker.proxyWeight * 100) waits .proxy (0 < count)) next
        | .error outcome => Fills begun (maker.proxyWeight * 100) waits next ∧ outcome.status ≠ .completed)
      (Fills begun (maker.proxyWeight * 100) waits) := by
  -- The bar may stand anywhere up to the mark; what is done of the proxies says how far it may grow.
  induction rest generalizing place progress scene with
  | nil =>
    obtain rfl : place = count := counted
    exact ensures_pure.mpr h
  | cons item rest ih =>
    rw [List.length_cons] at counted
    have among : place < count := by omega
    obtain ⟨within, first⟩ := done_le_mark weight finite among
    unfold makeProxies
    rw [ensures_bind, ensures_hasBeenCancelled]
    split
    · exact ensures_pure.mpr ⟨fills_of_bar h, by simp [Progress.ending]⟩
    have first := (Nat.eq_zero_or_pos place).symm.imp_right first
    rw [ensures_bind]
    refine (report_showing watches (fun reports overall bar => bar.tellProxy first within _ _) h).mono
      (fun _ middle htold => ?_) fun _ => fills_of_bar
    have told (update : EncoderProgress) (percentage : update.percent.IsPercentage) :
        Keeps (Showing begun (Bar (maker.proxyWeight * 100) waits .proxy True))
          (maker.reportProxy audience place count item update) := fun _ =>
      report_showing watches fun _ _ bar =>
        bar.tellProxy (.inl trivial) (proxy_le_mark weight finite among percentage) _ _
    rw [ensures_bind]
    refine (keeps_make maker.proxies told item _ htold).mono (fun outcome next hnext => ?_)
      fun _ => fills_of_bar
    rw [ensures_bind, ensures_hasBeenCancelled]
    split
    · exact ensures_pure.mpr ⟨fills_of_bar hnext, by simp [Progress.ending]⟩
    split
    · next path _ _ =>
      rw [ensures_bind, ensures_job, ensures_bind, ensures_setJob, ensures_bind]
      have made : Showing begun (Bar (maker.proxyWeight * 100) waits .proxy True) { next with
          job := { next.job with proxiesMade := next.job.proxiesMade ++ [(item.id, path)] } } := hnext
      refine ((watches.onProxy item.id path).showing _ made).mono (fun _ last hlast => ?_)
        fun _ => fills_of_bar
      exact ih (by omega) _ (hlast.imp fun _ _ bar => bar.weaken fun _ => trivial)
    · exact ensures_pure.mpr ⟨fills_of_bar hnext, by simp [Progress.ending]⟩

/-- A preview that ends has told of one bar, which is full if the preview is completed. -/
def Fulfils (begun : List (PreviewReport Double)) (mark : Double) (waits : Prop) (outcome : PreviewOutcome)
    (scene : Scene PreviewJob) : Prop :=
  Showing begun (fun reports _ => OneBar mark waits reports ∧
    (outcome.status = .completed → ∃ last ∈ reports.getLast?, last.overall = 100)) scene

theorem fulfils_of_fills {outcome : PreviewOutcome} (h : Fills begun mark waits scene)
    (other : outcome.status ≠ .completed) : Fulfils begun mark waits outcome scene :=
  h.imp fun _ _ bar => ⟨bar, fun completed => absurd completed other⟩

/-- The render fills the rest of the bar. -/
theorem renderWith_fills (watches : audience.Watches) (now : Nat) (duration : Double) {renderStart : Double}
    (composition : Composition Double) (progress : Progress)
    (h : Showing begun (Bar mark waits .render told) scene) (first : told ∨ renderStart ≤ Scalar.zero) :
    Ensures (maker.renderWith audience now duration renderStart composition progress) scene
      (fun outcome next => Fulfils begun mark waits outcome next) (Fills begun mark waits) := by
  have ending {next : Scene PreviewJob} (h : Showing begun (Bar mark waits .render True) next)
      {status : PreviewStatus} (other : status ≠ .completed) (error : Option String) :
      Fulfils begun mark waits (progress.ending status error) next :=
    fulfils_of_fills (fills_of_bar h) other
  unfold renderWith
  rw [ensures_bind]
  refine (lasts_showing.onFiles _ scene h).mono (fun _ middle hmiddle => ?_) fun _ => fills_of_bar
  refine .liftM_bind (fun command _ => ?_) (fills_of_bar hmiddle)
  rw [ensures_bind]
  refine (report_showing watches (fun reports overall bar => bar.tellRender first _ _) hmiddle).mono
    (fun _ told htold => ?_) fun _ => fills_of_bar
  rw [ensures_bind]
  refine (run_showing _ _ (fun update _ => fun _ => report_showing watches fun _ _ bar =>
    bar.tellRender (.inl trivial) _ _) command _ htold).mono (fun result next hnext => ?_)
    fun _ => fills_of_bar
  rw [ensures_bind, ensures_hasBeenCancelled]
  split
  · exact ensures_pure.mpr (ending hnext (by decide) none)
  split
  · exact ensures_pure.mpr (ending hnext (by decide) _)
  rw [ensures_bind]
  -- A render that was neither cancelled nor failed tells of 100, whatever it told before.
  have filled : ∀ reports overall, Bar mark waits .render True reports overall →
      FullBar mark waits (reports ++ [nextReport overall .render 100 100 "Done"])
        (nextReport overall .render 100 100 "Done").overall := fun _ _ bar => bar.full trivial _ _
  refine (report_showing watches filled hnext).mono (fun _ last hlast => ?_)
    fun _ fell => fell.imp fun _ _ => And.left
  exact ensures_pure.mpr (hlast.imp fun _ _ => And.imp_right fun full _ => full)

theorem render_fills (watches : audience.Watches) (now : Nat) (timeline : Timeline Double)
    {renderStart : Double} (progress : Progress) (h : Showing begun (Bar mark waits .render told) scene)
    (first : told ∨ renderStart ≤ Scalar.zero) :
    Ensures (maker.render audience now timeline renderStart progress) scene
      (fun outcome next => Fulfils begun mark waits outcome next) (Fills begun mark waits) := by
  have failed (error : Option String) :
      Fulfils begun mark waits (progress.ending .failed error) scene :=
    fulfils_of_fills (fills_of_bar h) (by simp [Progress.ending])
  unfold render
  by_cases none : timeline.duration ≤ Scalar.zero
  · rw [if_pos none]
    exact ensures_pure.mpr (failed _)
  rw [if_neg none]
  refine .liftM_bind (fun settings _ => ?_) (fills_of_bar h)
  rw [ensures_bind, ensures_station]
  dsimp only
  split
  · exact ensures_pure.mpr (failed _)
  · exact ensures_throw.mpr (fills_of_bar h)
  split
  · exact renderWith_fills watches now _ _ progress h first
  · exact ensures_pure.mpr (failed _)

/-! ### A whole preview -/

/-- The items that have no proxy when a preview begins. -/
def waiting (timeline : Timeline Double) (media : MediaLibrary) (scene : Scene PreviewJob) :
    List MediaFile :=
  pending timeline (media.dropLostProxies scene.station.files.pathExists) scene.station.files.pathExists

theorem make_fills (watches : audience.Watches)
    (weight : Scalar.zero ≤ maker.proxyWeight ∧ maker.proxyWeight ≤ 1) (now : Nat)
    (timeline : Timeline Double) (media : MediaLibrary) {items : List MediaFile}
    (known : waiting timeline media scene = items)
    (finite : (Scalar.whole items.length : Double).isFinite = true)
    (h : Showing begun (Bar (maker.proxyWeight * 100) (items ≠ []) .proxy False) scene) :
    Ensures (maker.make audience now timeline media) scene
      (fun outcome next => Fulfils begun (maker.proxyWeight * 100) (items ≠ []) outcome next)
      (Fills begun (maker.proxyWeight * 100) (items ≠ [])) := by
  have looks {told : Prop} {renderStart : Double} {progress : Progress} {next : Scene PreviewJob}
      (h : Showing begun (Bar (maker.proxyWeight * 100) (items ≠ []) .render told) next)
      (first : told ∨ renderStart ≤ Scalar.zero) :
      Ensures (do
          if ← hasBeenCancelled then return progress.ending .cancelled
          maker.render audience now timeline renderStart progress) next
        (fun outcome next => Fulfils begun (maker.proxyWeight * 100) (items ≠ []) outcome next)
        (Fills begun (maker.proxyWeight * 100) (items ≠ [])) := by
    rw [ensures_bind, ensures_hasBeenCancelled]
    split
    · exact ensures_pure.mpr (fulfils_of_fills (fills_of_bar h) (by simp [Progress.ending]))
    · exact render_fills watches now timeline progress h first
  unfold waiting at known
  unfold make
  rw [ensures_bind, ensures_station]
  dsimp only
  rw [known]
  cases items with
  | nil =>
    -- Nothing is to be done before the render, which begins at zero.
    rw [makeProxies, ensures_bind, ensures_pure]
    refine looks (h.imp fun _ _ bar => bar.toRender fun some => absurd rfl some) (.inr ?_)
    exact Double.zero_le_zero
  | cons item rest =>
    rw [if_neg (by simp), ensures_bind]
    refine (makeProxies_fills watches weight finite (by simp) _
      (h.imp fun _ _ bar => bar.weaken (Nat.lt_irrefl 0))).mono (fun ended next hnext => ?_) fun _ => id
    cases ended with
    | error outcome => exact ensures_pure.mpr (fulfils_of_fills hnext.1 hnext.2)
    | ok progress =>
      dsimp only
      rw [if_pos (by simp), ensures_bind]
      exact (report_showing watches (fun _ _ bar =>
        bar.tellReady (by simp) (isPercentage_mark weight) _ _) hnext).mono
        (fun _ last hlast => looks hlast (.inl trivial)) fun _ => fills_of_bar

/-- A maker of previews for which the proxies are three tenths of the whole. -/
def inTenths : PreviewMaker := { inFolders with proxyWeight := Double.ofRatio false 3 10 }

/-- A film of a second that has no proxy. -/
def shortFilm : MediaLibrary := [("film", { id := "film", type := .video, path := "film.mp4", duration := 1 })]

/-- A process that says that it is half done, and then that it is less. -/
def wavering : ProcessPlan where
  output := [.data ("out_time_us=500000\nprogress=continue\nout_time_us=250000\nprogress=continue\n".toList.map
    fun c => c.toNat.toUInt8)]

end PreviewMaker

end Montage
