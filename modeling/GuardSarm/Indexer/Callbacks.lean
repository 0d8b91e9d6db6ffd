import GuardSarm.Indexer.Delivery

/-! What each call of the connector does with the callbacks that are registered:
the bulk operations keep them, a flush hands out all of them or none, and an update
by query keeps them or drops them all. -/
namespace GuardSarm.Indexer

variable {κ : Type} {c₀ c : Connector κ} {server : Server} {maxBulkSize fuel : Nat}

/-- However the call ends, the callbacks are those of `c₀`. -/
def KeepsCallbacks {α : Type} (action : Connector.Action κ α) (c₀ c : Connector κ) : Prop :=
  Outcome action c (fun _ c' => c'.notify = c₀.notify) (fun _ c' => c'.notify = c₀.notify)

theorem processBulkIfFull_callbacks (size : Nat) :
    KeepsCallbacks (Connector.processBulkIfFull server maxBulkSize fuel size) c c := by
  apply Outcome.get_bind
  split
  · refine (processBulk_outcome c fuel).mono ?_ (fun _ _ kept => kept.1.notify)
    rintro _ c' (sent | ⟨_, held⟩)
    · exact sent.notify
    · exact held.notify
  · exact Outcome.pure rfl

theorem bulkDelete_callbacks (id index : Bytes) (same : c.notify = c₀.notify) :
    KeepsCallbacks (Connector.bulkDelete server maxBulkSize fuel id index) c₀ c := by
  refine require_outcome (fun _ => ?_) same
  apply Outcome.bind
  refine (processBulkIfFull_callbacks _).mono ?_ (fun _ _ kept => kept.trans same)
  intro _ c' kept
  exact Outcome.modify (kept.trans same)

theorem bulkIndex_callbacks (id index data version : Bytes) (same : c.notify = c₀.notify) :
    KeepsCallbacks (Connector.bulkIndex server maxBulkSize fuel id index data version) c₀ c := by
  refine require_outcome (fun _ => ?_) same
  apply Outcome.bind
  refine (processBulkIfFull_callbacks _).mono ?_ (fun _ _ kept => kept.trans same)
  intro _ c' kept
  split
  · apply Outcome.modify_bind
    exact Outcome.throw (kept.trans same)
  · exact Outcome.modify (kept.trans same)

theorem queueDelete_callbacks (index : Bytes) (agentId : String) (same : c.notify = c₀.notify) :
    KeepsCallbacks (Connector.queueDelete index agentId) c₀ c := by
  refine require_outcome (fun _ => ?_) same
  exact Outcome.modify same

theorem deleteByQueryExceptIds_callbacks (index : Bytes) (agentId : String) (keepIds : List Bytes)
    (same : c.notify = c₀.notify) :
    KeepsCallbacks (Connector.deleteByQueryExceptIds index agentId keepIds) c₀ c := by
  refine require_outcome (fun _ => ?_) same
  exact Outcome.modify same

/-- The callbacks handed out and those left are the ones there were. -/
theorem takeCallbacks_callbacks (same : c.notify = c₀.notify) :
    Outcome Connector.takeCallbacks c (fun callbacks c' => callbacks ++ c'.notify = c₀.notify)
      (fun _ c' => c'.notify = c₀.notify) := by
  apply Outcome.get_bind
  split
  · apply Outcome.modify_bind
    exact Outcome.pure (by simpa using same)
  · exact Outcome.pure same

theorem flush_callbacks :
    Outcome (Connector.flush server fuel) c (fun callbacks c' => callbacks ++ c'.notify = c.notify)
      (fun _ c' => c'.notify = c.notify) := by
  apply Outcome.modify_bind
  generalize cleared : { c with shouldNotifyAfterBulk := false } = c₁
  have same : c₁.notify = c.notify := by subst cleared; rfl
  apply Outcome.bind
  apply Outcome.get_bind
  split
  · refine (processBulk_outcome c₁ fuel).mono ?_ (fun _ _ kept => kept.1.notify.trans same)
    rintro _ c' (sent | ⟨_, held⟩)
    · exact takeCallbacks_callbacks (sent.notify.trans same)
    · exact takeCallbacks_callbacks (held.notify.trans same)
  · exact Outcome.pure (takeCallbacks_callbacks same)

theorem timer_callbacks :
    Outcome (Connector.timer server fuel) c (fun callbacks c' => callbacks ++ c'.notify = c.notify)
      (fun _ c' => c'.notify = c.notify) := by
  apply Outcome.get_bind
  split
  · apply Outcome.bind
    refine (processBulk_outcome c fuel).mono ?_ (fun _ _ kept => kept.1.notify)
    rintro _ c' (sent | ⟨_, held⟩)
    · exact takeCallbacks_callbacks sent.notify
    · exact takeCallbacks_callbacks held.notify
  · exact Outcome.pure rfl

/-- The callbacks an update by query leaves where it raises: none after an error of the indexer,
all of them where no server was available. -/
def UpdateRaised (server : Server) (c₀ : Connector κ) (e : ConnectorError) (c : Connector κ) :
    Prop :=
  e = .retrying ∨ c.notify = [] ∨ (c.notify = c₀.notify ∧ ∃ events, server.available events = false)

/-- `getNext` raises only where the selector has no server. -/
theorem getNext_available {α : Type} {Q : α → Connector κ → Prop}
    {R : ConnectorError → Connector κ → Prop} {f : Unit → Connector.Action κ α}
    (returns : ∀ e, Outcome (f ()) (c.log e) Q R)
    (raises : (∃ events, server.available events = false) → ∀ e, R .noServer (c.log e)) :
    Outcome (Connector.getNext server >>= f) c Q R := by
  apply Outcome.bind
  apply Outcome.get_bind
  apply Outcome.modify_bind
  split
  · exact Outcome.pure (returns _)
  · rename_i unavailable
    exact Outcome.throw (raises ⟨_, by simpa using unavailable⟩ _)

theorem updateLoop_callbacks (indexList : List Bytes) (query : String)
    (same : c.notify = c₀.notify) : Outcome (Connector.updateLoop server indexList query fuel) c
      (fun _ c' => c'.notify = c₀.notify ∨ c'.notify = []) (UpdateRaised server c₀) := by
  induction fuel generalizing c with
  | zero => exact Outcome.throw (.inl rfl)
  | succ fuel ih =>
    rw [Connector.updateLoop]
    apply Outcome.get_bind
    split
    · exact Outcome.bind (Outcome.modify (Outcome.pure (.inr rfl)))
    · refine getNext_available (fun e => ?_) (fun unavailable e => .inr (.inr ⟨same, unavailable⟩))
      apply post_outcome
      intro reply
      cases reply with
      | success response => exact Outcome.modify (.inl same)
      | error error status =>
        simp only
        split
        · exact ih same
        · exact Outcome.bind (Outcome.modify (Outcome.throw (.inr (.inl rfl))))

theorem executeUpdateByQuery_callbacks (indices : List Bytes) (query : String) :
    Outcome (Connector.executeUpdateByQuery server fuel indices query) c
      (fun _ c' => c'.notify = c.notify ∨ c'.notify = []) (UpdateRaised server c) := by
  rw [Connector.executeUpdateByQuery]
  split
  · exact Outcome.modify (.inl rfl)
  · exact updateLoop_callbacks _ query rfl

end GuardSarm.Indexer
