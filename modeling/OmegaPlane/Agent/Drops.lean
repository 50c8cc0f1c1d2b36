import OmegaPlane.Agent.Freshness

/-!
# Limits on dropped decisions

A flush drops a decision the control plane rejects on its own.  Whatever the answers,
only so many drops fall into an hour and between two batches that were accepted.
-/

namespace OmegaPlane.Agent

variable {sha256 : Bytes → Bytes}

/-! ## One answer -/

/-- All that an answer does to the queue and to the counts of drops. -/
inductive Limited (pdp : PDP) (report : Report) (response : Response) (taken : Nat)
    (handling : Handling) (after : PDP) : Prop where
  | accepted (status : response.status = 200)
      (streak : after.dropStreak = if report.batch = [] then pdp.dropStreak else 0)
      (times : after.dropTimes = pdp.dropTimes)
  | kept (status : response.status ≠ 200) (pending : after.pending = pdp.pending.drop taken)
      (streak : after.dropStreak = pdp.dropStreak)
      (times : after.dropTimes = pdp.dropTimes ∨ after.dropTimes = pdp.recentDrops handling.counted)
  | dropped (first : Queued) (status : response.status = 400 ∨ response.status = 413)
      (some : report.batch ≠ []) (left : report.batch.length - report.partly response ≤ 1)
      (pending : pdp.pending.drop taken = first :: after.pending)
      (below : pdp.dropStreak < maxDropStreak) (streak : after.dropStreak = pdp.dropStreak + 1)
      (few : (pdp.recentDrops handling.counted).length < maxDropsPerHour)
      (times : after.dropTimes = pdp.recentDrops handling.counted ++ [handling.noted])

theorem PDP.respondTo_limited (pdp : PDP) (report : Report) (response : Response)
    (decoded : Bool) (handling : Handling) :
    Limited pdp report response (report.taken response decoded) handling
      (pdp.respondTo sha256 report response decoded handling).1 := by
  have responded := pdp.respondTo_responded sha256 report response decoded handling
  generalize pdp.respondTo sha256 report response decoded handling = result at responded ⊢
  cases responded with
  | accepted status => exact .accepted status rfl rfl
  | kept status | halved status => exact .kept status rfl rfl (.inl rfl)
  | counted status => exact .kept status rfl rfl (.inr rfl)
  | dropped status some left below few =>
  unfold PDP.dropFirst
  split
  · exact .kept (by omega) rfl rfl (.inl rfl)
  rename_i first rest waiting
  refine .dropped first status some left ?_ below rfl few rfl
  simp only [PDP.remove] at waiting ⊢
  rw [waiting]
  rfl

/-- What a refusal takes off the queue besides what it says was recorded. -/
def PDP.lost (sha256 : Bytes → Bytes) (pdp : PDP) (report : Report) (response : Response)
    (decoded : Bool) (handling : Handling) : List Queued :=
  if response.status = 200 then []
  else
    let waiting := pdp.pending.drop (report.taken response decoded)
    waiting.take (waiting.length -
      (pdp.respondTo sha256 report response decoded handling).1.pending.length)

variable {pdp : PDP} {handling : Handling}

variable {report : Report} {response : Response} {decoded : Bool}

theorem PDP.lost_of_kept
    (pending : (pdp.respondTo sha256 report response decoded handling).1.pending =
      pdp.pending.drop (report.taken response decoded)) :
    pdp.lost sha256 report response decoded handling = [] := by
  simp [PDP.lost, pending]

theorem PDP.lost_of_dropped {first : Queued} (status : response.status ≠ 200)
    (pending : pdp.pending.drop (report.taken response decoded) =
      first :: (pdp.respondTo sha256 report response decoded handling).1.pending) :
    pdp.lost sha256 report response decoded handling = [first] := by
  simp [PDP.lost, pending, status]

/-! ## Runs -/

inductive Event where
  /-- A batch with decisions was answered 200. -/
  | shipped
  | dropped (queued : Queued) (time : Int)

def PDP.events (sha256 : Bytes → Bytes) (pdp : PDP) (report : Report) (response : Response)
    (decoded : Bool) (handling : Handling) : List Event :=
  if response.status = 200 then (if report.batch = [] then [] else [.shipped])
  else (pdp.lost sha256 report response decoded handling).map (.dropped · handling.noted)

/-- The times of the drops. -/
def dropTimes (log : List Event) : List Int :=
  log.filterMap fun
    | .shipped => none
    | .dropped _ time => some time

/-- A run of flushes with arbitrary answers at nondecreasing times, between the critical
sections of syncs and evaluations; the report is the one an answer is waited for. -/
inductive Flushes (sha256 : Bytes → Bytes) (policy : Policy) (config : Config) :
    PDP → Option Report → Int → List Event → Prop where
  | start {pdp : PDP} (now : Int) (streak : pdp.dropStreak = 0) (times : pdp.dropTimes = []) :
      Flushes sha256 policy config pdp none now []
  | reserve {pdp held : PDP} {flying : Option Report} {last : Int} {log : List Event}
      (run : Flushes sha256 policy config pdp flying last log) (now : Int)
      (reserved : pdp.reserve config now = .ok held) :
      Flushes sha256 policy config held flying last log
  | release {pdp : PDP} {flying : Option Report} {last : Int} {log : List Event}
      (run : Flushes sha256 policy config pdp flying last log) :
      Flushes sha256 policy config pdp.release flying last log
  | enqueue {pdp : PDP} {flying : Option Report} {last : Int} {log : List Event}
      (run : Flushes sha256 policy config pdp flying last log) (queued : Queued) :
      Flushes sha256 policy config (pdp.enqueue queued) flying last log
  | sync {pdp : PDP} {flying : Option Report} {last : Int} {log : List Event}
      (run : Flushes sha256 policy config pdp flying last log) (answer : PollAnswer)
      (clock : SyncReadings) :
      Flushes sha256 policy config (pdp.sync sha256 policy config answer clock).2 flying last log
  | send {pdp : PDP} {last : Int} {log : List Event}
      (run : Flushes sha256 policy config pdp none last log) (report : Report)
      (reported : pdp.report = some report) :
      Flushes sha256 policy config pdp (some report) last log
  | lose {pdp : PDP} {report : Report} {last : Int} {log : List Event}
      (run : Flushes sha256 policy config pdp (some report) last log) :
      Flushes sha256 policy config pdp none last log
  | answer {pdp : PDP} {report : Report} {last : Int} {log : List Event}
      (run : Flushes sha256 policy config pdp (some report) last log) (response : Response)
      (decoded : Bool) (handling : Handling) (later : last ≤ handling.counted)
      (noted : handling.counted ≤ handling.noted) :
      Flushes sha256 policy config (pdp.respondTo sha256 report response decoded handling).1 none
        handling.noted (log ++ pdp.events sha256 report response decoded handling)

/-- Any two times of the window are less than an hour apart. -/
def WithinHour (window : Int → Bool) : Prop :=
  ∀ first second, window first = true → window second = true → second < first + Clock.hour

/-- What holds of the counts in every run. -/
structure Bounded (pdp : PDP) (flying : Option Report) (last : Int) (log : List Event) : Prop where
  front : ∀ report, flying = some report → report.batch <+: pdp.pending
  recent : ∀ now, last ≤ now → (dropTimes log).filter (now - Clock.hour < ·) = pdp.recentDrops now
  hourly : ∀ window, WithinHour window → ((dropTimes log).filter window).length ≤ maxDropsPerHour
  streak : ∀ part, part <:+ log → .shipped ∉ part → part.length ≤ pdp.dropStreak
  between : ∀ part, part <:+: log → .shipped ∉ part → part.length ≤ maxDropStreak

theorem Bounded.start (now : Int) (times : pdp.dropTimes = []) : Bounded pdp none now [] where
  front := by simp
  recent := by simp [dropTimes, PDP.recentDrops, times]
  hourly := by simp [dropTimes]
  streak := by simp
  between := by simp

variable {pdp' : PDP} {flying : Option Report} {last : Int} {log : List Event}

/-- The other critical sections leave the counts alone and only add to the queue. -/
theorem Bounded.of_same (bounded : Bounded pdp flying last log)
    (grows : pdp.pending <+: pdp'.pending) (streak : pdp'.dropStreak = pdp.dropStreak)
    (times : pdp'.dropTimes = pdp.dropTimes) :
    Bounded pdp' flying last log where
  front report isReport := (bounded.front report isReport).trans grows
  recent now later := by rw [bounded.recent now later, PDP.recentDrops, PDP.recentDrops, times]
  hourly := bounded.hourly
  streak := by simpa [streak] using bounded.streak
  between := bounded.between

/-- Forgetting drops of more than an hour ago does not show later. -/
theorem filter_recentDrops (pdp : PDP) {counted now : Int} (later : counted ≤ now) :
    (pdp.recentDrops counted).filter (now - Clock.hour < ·) = pdp.recentDrops now := by
  simp only [PDP.recentDrops, List.filter_filter]
  refine List.filter_congr fun time _ => ?_
  simp only [← Bool.decide_and, decide_eq_decide]
  omega

theorem Bounded.ship {now : Int} (bounded : Bounded pdp flying last log) (later : last ≤ now)
    (times : pdp'.dropTimes = pdp.dropTimes) :
    Bounded pdp' none now (log ++ [.shipped]) where
  front := by simp
  recent time after := by
    simp only [dropTimes, List.filterMap_append, List.filterMap_cons, List.filterMap_nil,
      List.append_nil]
    rw [← dropTimes, bounded.recent time (later.trans after), PDP.recentDrops, PDP.recentDrops, times]
  hourly window narrow := by
    simpa [dropTimes] using bounded.hourly window narrow
  streak part suffix unshipped := by
    rcases List.suffix_concat_iff.mp suffix with rfl | ⟨_, rfl, -⟩
    · exact Nat.zero_le _
    · simp at unshipped
  between part segment unshipped := by
    rcases List.infix_concat_iff.mp segment with suffix | earlier
    · rcases List.suffix_concat_iff.mp suffix with rfl | ⟨_, rfl, -⟩
      · exact Nat.zero_le _
      · simp at unshipped
    · exact bounded.between part earlier unshipped

theorem dropTimes_drop (log : List Event) (queued : Queued) (time : Int) :
    dropTimes (log ++ [.dropped queued time]) = dropTimes log ++ [time] := by
  simp [dropTimes]

theorem Bounded.drop (bounded : Bounded pdp flying last log) (later : last ≤ handling.counted)
    (noted : handling.counted ≤ handling.noted) (below : pdp.dropStreak < maxDropStreak)
    (streak : pdp'.dropStreak = pdp.dropStreak + 1)
    (few : (pdp.recentDrops handling.counted).length < maxDropsPerHour)
    (times : pdp'.dropTimes = pdp.recentDrops handling.counted ++ [handling.noted])
    (queued : Queued) :
    Bounded pdp' none handling.noted (log ++ [.dropped queued handling.noted]) where
  front := by simp
  recent time after := by
    have isRecent : pdp'.recentDrops time =
        pdp.recentDrops time ++ [handling.noted].filter (time - Clock.hour < ·) := by
      rw [PDP.recentDrops, times, List.filter_append, filter_recentDrops pdp (noted.trans after)]
    rw [dropTimes_drop, List.filter_append, bounded.recent time (by omega), isRecent]
  hourly window narrow := by
    rw [dropTimes_drop, List.filter_append]
    by_cases inside : window handling.noted = true
    · -- what shares the window with this drop was counted before it
      have counted : ((dropTimes log).filter window).length ≤
          (pdp.recentDrops handling.counted).length := by
        rw [← bounded.recent handling.counted later]
        refine (List.monotone_filter_right _ fun time member => ?_).length_le
        have near := narrow time handling.noted member inside
        simp only [decide_eq_true_eq]
        omega
      simp only [List.filter_cons, inside, if_true, List.filter_nil, List.length_append,
        List.length_singleton]
      omega
    · simpa [inside] using bounded.hourly window narrow
  streak part suffix unshipped := by
    rcases List.suffix_concat_iff.mp suffix with rfl | ⟨earlier, rfl, isSuffix⟩
    · exact Nat.zero_le _
    have before := bounded.streak earlier isSuffix fun member =>
      unshipped (List.mem_append_left _ member)
    simp only [List.length_append, List.length_singleton]
    omega
  between part segment unshipped := by
    rcases List.infix_concat_iff.mp segment with suffix | earlier
    · rcases List.suffix_concat_iff.mp suffix with rfl | ⟨earlier, rfl, isSuffix⟩
      · exact Nat.zero_le _
      · have before := bounded.streak earlier isSuffix fun member =>
          unshipped (List.mem_append_left _ member)
        simp only [List.length_append, List.length_singleton]
        omega
    · exact bounded.between part earlier unshipped

theorem Bounded.keep (bounded : Bounded pdp flying last log) (later : last ≤ handling.counted)
    (noted : handling.counted ≤ handling.noted) (streak : pdp'.dropStreak = pdp.dropStreak)
    (times : pdp'.dropTimes = pdp.dropTimes ∨ pdp'.dropTimes = pdp.recentDrops handling.counted) :
    Bounded pdp' none handling.noted log where
  front := by simp
  recent time after := by
    rw [bounded.recent time (by omega)]
    rcases times with same | pruned
    · rw [PDP.recentDrops, PDP.recentDrops, same]
    · rw [← filter_recentDrops pdp (noted.trans after), ← pruned, PDP.recentDrops]
  hourly := bounded.hourly
  streak := by simpa [streak] using bounded.streak
  between := bounded.between

theorem PDP.sync_queue (policy : Policy) (config : Config) (pdp : PDP) (answer : PollAnswer)
    (clock : SyncReadings) :
    (pdp.sync sha256 policy config answer clock).2.pending = pdp.pending ∧
    (pdp.sync sha256 policy config answer clock).2.dropStreak = pdp.dropStreak ∧
    (pdp.sync sha256 policy config answer clock).2.dropTimes = pdp.dropTimes := by
  unfold PDP.sync
  repeat' split
  all_goals exact ⟨rfl, rfl, rfl⟩

theorem Flushes.bounded {policy : Policy} {config : Config}
    (run : Flushes sha256 policy config pdp flying last log) :
    Bounded pdp flying last log := by
  induction run with
  | start now streak times => exact .start now times
  | reserve run now reserved ih =>
    simp only [PDP.reserve, ite_error_eq_ok, Except.ok.injEq] at reserved
    obtain ⟨-, -, rfl⟩ := reserved
    exact ih.of_same List.prefix_rfl rfl rfl
  | release run ih => exact ih.of_same List.prefix_rfl rfl rfl
  | enqueue run queued ih => exact ih.of_same (List.prefix_append _ _) rfl rfl
  | @sync pdp flying last log run answer clock ih =>
    obtain ⟨pending, streak, times⟩ := @PDP.sync_queue sha256 policy config pdp answer clock
    exact ih.of_same (pending ▸ List.prefix_rfl) streak times
  | send run report reported ih =>
    refine { ih with front := ?_ }
    rintro _ ⟨⟩
    exact (PDP.reports_of_report reported).batch
  | lose run ih => exact { ih with front := by simp }
  | @answer pdp report last log run response decoded handling later noted ih =>
    cases @PDP.respondTo_limited sha256 pdp report response decoded handling with
    | accepted status streak times =>
      by_cases empty : report.batch = []
      · simp only [PDP.events, status, empty, if_true, List.append_nil] at streak ⊢
        exact ih.keep later noted streak (.inl times)
      · simp only [PDP.events, status, empty, if_true, if_false]
        exact ih.ship (later.trans noted) times
    | kept status pending streak times =>
      simp only [PDP.events, status, if_false, PDP.lost_of_kept pending, List.map_nil,
        List.append_nil]
      exact ih.keep later noted streak times
    | dropped first status some left pending below streak few times =>
      have refused : response.status ≠ 200 := by omega
      simp only [PDP.events, refused, if_false, PDP.lost_of_dropped refused pending, List.map_cons,
        List.map_nil]
      exact ih.drop later noted below streak few times first

/-- Drops are bounded, and a dropped decision was alone exactly when a body that does not
decode counts for nothing. -/
theorem drops_bounded {policy : Policy} {config : Config} {pdp : PDP} {flying : Option Report}
    {last : Int} {log : List Event} (run : Flushes sha256 policy config pdp flying last log) :
    (∀ report, flying = some report → ∀ response decoded handling,
      let after := (pdp.respondTo sha256 report response decoded handling).1
      let taken := report.taken response decoded
      (pdp.lost sha256 report response decoded handling = [] ∧
        (response.status ≠ 200 → after.pending = pdp.pending.drop taken)) ∨
      ∃ first others, pdp.lost sha256 report response decoded handling = [first] ∧
        (response.status = 400 ∨ response.status = 413) ∧
        report.batch = report.batch.take taken ++ first :: others ∧
        pdp.pending = report.batch.take taken ++ first :: after.pending ∧
        (others = [] ↔ (decoded = false → report.partly response = 0))) ∧
    (∀ window, WithinHour window → ((dropTimes log).filter window).length ≤ maxDropsPerHour) ∧
    ∀ part, part <:+: log → .shipped ∉ part → part.length ≤ maxDropStreak := by
  have bounded := run.bounded
  refine ⟨?_, bounded.hourly, bounded.between⟩
  intro report isFlying response decoded handling
  obtain ⟨rest, isPending⟩ := bounded.front report isFlying
  cases @PDP.respondTo_limited sha256 pdp report response decoded handling with
  | accepted status => exact .inl ⟨by simp [PDP.lost, status], fun other => absurd status other⟩
  | kept status pending => exact .inl ⟨PDP.lost_of_kept pending, fun _ => pending⟩
  | dropped first status some left pending =>
  have within : report.partly response < report.batch.length := by
    have positive := List.length_pos_iff.mpr some
    unfold Report.partly
    split <;> omega
  have fewer : report.taken response decoded ≤ report.partly response := by
    unfold Report.taken
    split <;> omega
  obtain ⟨single, others, isDrop⟩ : ∃ single others,
      report.batch.drop (report.taken response decoded) = single :: others :=
    List.ne_nil_iff_exists_cons.mp (by simp; omega)
  have isBatch := List.take_append_drop (report.taken response decoded) report.batch
  rw [isDrop] at isBatch
  rw [← isPending, List.drop_append_of_le_length (by omega), isDrop] at pending
  obtain ⟨rfl, isRest⟩ := List.cons.inj pending
  refine .inr ⟨single, others, PDP.lost_of_dropped (by omega) ?_, status, isBatch.symm, ?_, ?_⟩
  · rw [← isPending, List.drop_append_of_le_length (by omega), isDrop, ← isRest]
    rfl
  · calc pdp.pending = report.batch ++ rest := isPending.symm
      _ = report.batch.take (report.taken response decoded) ++ single :: others ++ rest := by
        rw [isBatch]
      _ = _ := by rw [← isRest, List.append_assoc]; rfl
  · -- the batch has one decision more than the answer says were recorded
    have others_length : others.length + 1 = report.batch.length -
        report.taken response decoded := by
      rw [← List.length_drop, isDrop, List.length_cons]
    rw [← List.length_eq_zero_iff]
    cases decoded with
    | true =>
      rw [Report.taken, if_pos rfl] at others_length
      simp only [Bool.true_eq_false, false_implies, iff_true]
      omega
    | false =>
      rw [Report.taken, if_neg Bool.false_ne_true] at others_length
      simp only [true_implies]
      omega

/-- Decisions wait. -/
def sampleWaiting (ids : List String) : PDP :=
  { PDP.new with pending := ids.map fun id => ⟨ascii id, ascii "\x7b\x7d", []⟩ }

theorem drops_bounded_waiting :
    Flushes (fun _ => []) samplePolicy sampleConfig
      ((sampleWaiting ["1"]).respondTo (fun _ => []) ⟨[], (sampleWaiting ["1"]).pending, [], [], []⟩
        ⟨400, 0⟩ true ⟨1, 1, []⟩).1
      none 1 [.dropped ⟨ascii "1", ascii "\x7b\x7d", []⟩ 1] ∧
    ∀ window, WithinHour window → ([(1 : Int)].filter window).length ≤ maxDropsPerHour := by
  have sent : Flushes (fun _ => []) samplePolicy sampleConfig (sampleWaiting ["1"])
      (some ⟨[], (sampleWaiting ["1"]).pending, [], [], []⟩) 0 [] :=
    .send (.start 0 rfl rfl) _ (by decide)
  have run := sent.answer ⟨400, 0⟩ true ⟨1, 1, []⟩ (by decide) le_rfl
  exact ⟨run, (drops_bounded run).2.1⟩

/-- Two decisions are sent and neither is recorded.  The body says that one was, then gives
the count again as a text, so it does not decode: the first decision is dropped. -/
theorem drop_beside_another :
    let pdp := sampleWaiting ["1", "2"]
    ∃ report, pdp.report = some report ∧
      Flushes (fun _ => []) samplePolicy sampleConfig pdp (some report) 0 [] ∧
      report.batch.length = 2 ∧ report.taken ⟨400, 1⟩ false = 0 ∧
      pdp.lost (fun _ => []) report ⟨400, 1⟩ false ⟨1, 1, []⟩ =
        [⟨ascii "1", ascii "\x7b\x7d", []⟩] := by
  refine ⟨⟨[], (sampleWaiting ["1", "2"]).pending, [], [], []⟩, by decide,
    .send (.start 0 rfl rfl) _ (by decide), rfl, rfl, by decide⟩

end OmegaPlane.Agent
