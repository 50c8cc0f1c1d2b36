import OmegaPlane.Agent.Spool

/-!
# Exactly one row for a decision

A decision may reach the control plane any number of times.  While every resend
comes before its key is forgotten, the chain gets one row for it.
-/

namespace OmegaPlane.Agent

open Audit Storage Decision

variable {σ : Type} {setup : Setup}

instance (draft : AuditDraft) (ev : AuditEvent) : Decidable (Carries draft ev) :=
  inferInstanceAs (Decidable (_ ∧ _))

/-- How many rows carry the decision. -/
def Queued.copies (setup : Setup) (rows : List AuditEvent) (queued : Queued) : Nat :=
  match queued.draft setup.codec setup.agent with
  | none => 0
  | some draft => rows.countP fun ev => Carries draft ev

variable {queued : Queued}

variable {rows : List AuditEvent} {w w' : World σ} {call : Call} {draft : AuditDraft}

theorem Queued.copies_eq_zero : queued.copies setup rows = 0 ↔ ¬ queued.Recorded setup rows := by
  unfold Queued.copies Queued.Recorded
  split
  · rename_i none
    simp [none]
  · rename_i draft drafted
    simp [drafted, List.countP_eq_zero]

theorem Queued.copies_append (rows new : List AuditEvent) (queued : Queued) :
    queued.copies setup (rows ++ new) = queued.copies setup rows + queued.copies setup new := by
  unfold Queued.copies
  split
  · rfl
  · exact List.countP_append

/-- Rows that do not carry a decision do not count. -/
theorem Queued.copies_of_foreign {new : List AuditEvent} (foreign : ¬ queued.Recorded setup new) :
    queued.copies setup (rows ++ new) = queued.copies setup rows := by
  rw [Queued.copies_append, Queued.copies_eq_zero.mpr foreign, Nat.add_zero]

/-- The decision is not on the chain, or it is there once and its key is known
until it is forgotten. -/
inductive OnChainOnce (setup : Setup) (w : World σ) (queued : Queued) : Prop where
  | absent (copies : queued.copies setup w.rows = 0)
      (free : w.store.db.auditOnce.lookup (decisionKey setup.agent queued.id) = none)
  | once (draft : AuditDraft) (time : Int) (copies : queued.copies setup w.rows = 1)
      (drafted : queued.draft setup.codec setup.agent = some draft)
      (noted : (decisionKey setup.agent queued.id, time) ∈ w.noted)
      (remembered : w.clock ≤ time + auditOnceRetention →
        w.store.db.auditOnce.lookup (decisionKey setup.agent queued.id) =
          some ⟨decisionKey setup.agent queued.id, eventDigest setup.sha256 draft, time⟩)

/-- Rows of others, and prunings of old keys. -/
theorem OnChainOnce.of_foreign {w w' : World σ} {queued : Queued}
    (once : OnChainOnce setup w queued) {new : List AuditEvent} (rows : w'.rows = w.rows ++ new)
    (foreign : ¬ queued.Recorded setup new)
    (found : ∀ row, w'.store.db.auditOnce.lookup (decisionKey setup.agent queued.id) = some row →
      w.store.db.auditOnce.lookup (decisionKey setup.agent queued.id) = some row)
    (kept : ∀ row, w.store.db.auditOnce.lookup (decisionKey setup.agent queued.id) = some row →
      w'.clock - auditOnceRetention ≤ row.createdAt →
      w'.store.db.auditOnce.lookup (decisionKey setup.agent queued.id) = some row)
    (noted : ∀ note ∈ w.noted, note ∈ w'.noted) (clock : w.clock ≤ w'.clock) :
    OnChainOnce setup w' queued := by
  have copies : queued.copies setup w'.rows = queued.copies setup w.rows := by
    rw [rows, Queued.copies_of_foreign foreign]
  cases once with
  | absent none free =>
    refine .absent (copies.trans none) ?_
    cases present : w'.store.db.auditOnce.lookup (decisionKey setup.agent queued.id) with
    | none => rfl
    | some row =>
      rw [found row present] at free
      contradiction
  | once draft time one drafted note remembered =>
    refine .once draft time (copies.trans one) drafted (noted _ note) ?_
    intro early
    refine kept _ (remembered (clock.trans early)) ?_
    simp only
    omega

/-- Steps that leave the chain and its keys alone. -/
theorem OnChainOnce.of_same (once : OnChainOnce setup w queued) (store : w'.store = w.store)
    (noted : w'.noted = w.noted) (clock : w'.clock = w.clock) :
    OnChainOnce setup w' queued := by
  refine @OnChainOnce.of_foreign _ _ w w' queued once [] ?_ ?_ ?_ ?_ ?_ ?_
  · rw [World.rows, World.rows, store, List.append_nil]
  · simp [Queued.Recorded]
  · rw [store]
    exact fun _ => id
  · rw [store]
    exact fun _ present _ => present
  · rw [noted]
    exact fun _ => id
  · exact clock.ge

variable {key : Bytes} {handler : Handler}

/-- A key that is young enough stays. -/
theorem appendAuditOnce_kept {sha256 : Bytes → Bytes} {s : Store σ} {name : Bytes} {row : OnceRow}
    (present : s.db.auditOnce.lookup name = some row)
    (young : call.now - auditOnceRetention ≤ row.createdAt) :
    (appendAuditOnce sha256 s call key draft).1.db.auditOnce.lookup name = some row := by
  cases @appendAuditOnce_cases σ sha256 s call key draft with
  | nothing rows once | conflict ev other taken different writes once => exact once ▸ present
  | event ev free writes kept =>
    refine kept name row ?_ young
    rw [Table.lookup_insert_of_none free, if_neg ?_]
    · exact present
    · rintro rfl
      exact absurd (free.symm.trans present) (by simp)

variable {before after : List Handler}

/-- The append of the decision itself. -/
theorem OnChainOnce.append_own (once : OnChainOnce setup w queued)
    (drafted : queued.draft setup.codec setup.agent = some draft)
    (timely : w.Timely (decisionKey setup.agent queued.id) call.now) :
    OnChainOnce setup (w.append setup before handler after
      (decisionKey setup.agent queued.id) draft call) queued := by
  generalize keyEq : decisionKey setup.agent queued.id = key at timely
  have effect := @appendAuditOnce_cases σ setup.sha256 w.store call key draft
  cases once with
  | absent none free =>
    rw [keyEq] at free
    cases effect with
    | nothing rows unchanged =>
      refine .absent ?_ ?_
      · change queued.copies setup (appendAuditOnce setup.sha256 w.store call key
          draft).1.db.auditLog.rows = 0
        rw [rows]
        exact none
      · change (appendAuditOnce setup.sha256 w.store call key draft).1.db.auditOnce.lookup _ = _
        rw [unchanged, keyEq]
        exact free
    | event ev _ writes kept =>
      refine .once draft call.now ?_ drafted ?_ ?_
      · change queued.copies setup (appendAuditOnce setup.sha256 w.store call key
          draft).1.db.auditLog.rows = 1
        rw [writes.rows, Queued.copies_append]
        change queued.copies setup w.rows + _ = 1
        rw [none]
        simp [Queued.copies, drafted, writes.carries]
      · unfold World.append
        dsimp only
        rw [keyEq, if_pos ⟨free, by simp [writes.rows, World.rows]⟩]
        exact List.mem_cons_self
      · intro _
        change (appendAuditOnce setup.sha256 w.store call key draft).1.db.auditOnce.lookup _ = _
        rw [keyEq]
        refine kept key _ ?_ ?_
        · rw [Table.lookup_insert_of_none free, if_pos rfl]
        · change call.now - auditOnceRetention ≤ call.now
          have positive : 0 < auditOnceRetention := by decide
          omega
    | conflict ev row taken =>
      rw [free] at taken
      contradiction
  | once own time one ownDrafted note remembered =>
    obtain rfl : own = draft := Option.some.inj (ownDrafted.symm.trans drafted)
    rw [keyEq] at note remembered
    have early := timely.2 time note
    have present := remembered (timely.1.trans early)
    cases effect with
    | nothing rows unchanged =>
      refine .once own time ?_ drafted ?_ ?_
      · change queued.copies setup (appendAuditOnce setup.sha256 w.store call key
          own).1.db.auditLog.rows = 1
        rw [rows]
        exact one
      · unfold World.append
        dsimp only
        rw [keyEq]
        split
        · exact List.mem_cons_of_mem _ note
        · exact note
      · intro _
        change (appendAuditOnce setup.sha256 w.store call key own).1.db.auditOnce.lookup _ = _
        rw [unchanged, keyEq]
        exact present
    | event ev free =>
      rw [free] at present
      contradiction
    | conflict ev row taken different =>
      rw [present] at taken
      cases taken
      exact absurd rfl different

theorem OnChainOnce.append (sound : Sound setup w) (made : queued ∈ w.made)
    (once : OnChainOnce setup w queued) (running : w.handlers = before ++ handler :: after)
    (next : handler.next setup.codec setup.agent = .inr (key, draft))
    (timely : w.Timely key call.now) :
    OnChainOnce setup (w.append setup before handler after key draft call) queued := by
  have step := sound.nextAppend (sound.handlers handler (by simp [running])) next
  by_cases own : key = decisionKey setup.agent queued.id
  · subst own
    refine once.append_own ?_ timely
    cases step with
    | loss pending keyEq => exact absurd keyEq (decisionKey_ne_lossKey _ _ _)
    | decision other noLoss otherMade here keyEq drafted =>
      rw [sound.queue.eq_of_id made otherMade (decisionKey_injective keyEq)]
      exact drafted
  · obtain ⟨new, effect⟩ := appendAuditOnce_effect setup.sha256 w.store call key draft
    refine @OnChainOnce.of_foreign _ _ w (w.append setup before handler after key draft call) queued
      once new effect.rows ?_ ?_ ?_ ?_ timely.1
    · rintro ⟨ownDraft, drafted, ev, member, carries⟩
      exact own (sound.appends_of_carries step (effect.carried ev member) made drafted carries).1
    · intro row found
      rcases effect.found _ row found with old | ⟨same, -⟩
      · exact old
      · exact absurd same.symm own
    · exact fun row present young => appendAuditOnce_kept present young
    · intro note member
      unfold World.append
      dsimp only
      split
      · exact List.mem_cons_of_mem _ member
      · exact member

theorem OnChainOnce.step (sound : Sound setup w)
    (once : ∀ queued ∈ w.made, OnChainOnce setup w queued) (step : Step setup true w w') :
    ∀ queued ∈ w'.made, OnChainOnce setup w' queued := by
  cases step with
  | decide before call after response queued waiting decided fresh =>
    obtain ⟨-, keyFree, unnamed⟩ := fresh
    refine List.forall_mem_cons.mpr ⟨.absent ?_ keyFree, fun other member =>
      (once other member).of_same rfl rfl rfl⟩
    rw [Queued.copies_eq_zero]
    rintro ⟨draft, drafted, ev, member, carries⟩
    have genuine := Queued.DecidedWith.genuine decided
    obtain ⟨-, -, fields, named, content⟩ := Queued.draft_row genuine drafted carries
    exact unnamed ev member fields named content
  | forbid report call recorders member refused timely =>
    intro queued made
    have unchanged := @appendAudit_auditOnce σ setup.sha256 w.store call (denyDraft setup.agent)
    obtain ⟨new, rows, empty⟩ := deny_effect setup w.store call
    refine (once queued made).of_foreign rows ?_ ?_ ?_ (fun _ => id) (timely rfl)
    · rintro ⟨draft, drafted, ev, present, carries⟩
      exact (sound.queue.genuine made).payload_ne drafted carries (empty ev present)
    · exact fun row found => unchanged ▸ found
    · exact fun row found _ => unchanged ▸ found
  | append before handler after key draft call running next timely =>
    exact fun queued made => (once queued made).append sound made running next (timely rfl)
  | others store now others timely =>
    intro queued made
    obtain ⟨new, rows, foreign⟩ := others.rows
    refine (once queued made).of_foreign rows ?_ ?_ ?_ (fun _ => id) (timely rfl)
    · rintro ⟨draft, drafted, ev, member, carries⟩
      obtain ⟨kind, actor, -⟩ := Queued.draft_row (sound.queue.genuine made) drafted carries
      rcases foreign ev member with elsewhere | elsewhere
      · exact elsewhere actor
      · exact elsewhere kind
    · exact fun row found => others.found _ row (by simp [decisionKey]) found
    · exact fun row found young => others.kept _ row (by simp [decisionKey]) found young
  | _ => exact fun queued made => (once queued made).of_same rfl rfl rfl

theorem NodeReaches.onChainOnce {store : Store σ} {node : Node σ}
    (reaches : NodeReaches setup store node)
    (shallow : ∀ queued ∈ node.world.made, queued.Shallow) :
    ∀ queued ∈ node.world.made, OnChainOnce setup node.world queued := by
  induction reaches with
  | start => simp [Node.start]
  | step reaches step ih =>
  have before := fun queued member => shallow queued (step.made queued member)
  have sound := (reaches.durable before).sound
  cases step with
  | step w up step | server w step => exact OnChainOnce.step sound (ih before) step
  | _ => exact fun queued made => (ih before queued made).of_same rfl rfl rfl

/-- There is never a second row for a decision. -/
theorem OnChainOnce.copies_le (once : OnChainOnce setup w queued) :
    queued.copies setup w.rows ≤ 1 := by
  cases once with
  | absent => omega
  | once => omega

theorem OnChainOnce.copies_eq_one (once : OnChainOnce setup w queued)
    (recorded : queued.Recorded setup w.rows) :
    queued.copies setup w.rows = 1 := by
  cases once with
  | absent none => exact absurd recorded (Queued.copies_eq_zero.mp none)
  | once draft time one => exact one

end OmegaPlane.Agent
