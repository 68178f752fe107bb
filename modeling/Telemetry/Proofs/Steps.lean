import Telemetry.Proofs.Asides
import Telemetry.Proofs.Runs
import Telemetry.Proofs.Sends

/-!
# What a node can do

Claims about runs are not proved on runs. `Node.Step` says what a node can do
at a time, whatever its devices answer, with the notes that are made of it, and
`Node.Path` chains such steps. Every operation is a chain of steps or an edit
of the table, so whatever these keep holds of every run and of its history;
that is `history_induction`. After this file no proof sees a device again.
-/

namespace Telemetry.Node

variable {W : Type}

/-! ## Steps -/

/-- What a node can do at a time, with the notes that are made of it. -/
inductive Step (n : Node) : List Note → Node → Prop where
  | turn {now : Timestamp} {sampler : Sampler} {table : Table} {calls : List Call}
      (hdue : n.sampler.due now = true)
      (h : Sampler.Turns n.sampler n.table n.clock now (sampler, table) calls) :
      Step n (.turn now :: Voice.schedule.notes calls) { n with sampler, table }
  | poll {sampler : Sampler} {table : Table} {polled : UInt32} {calls : List Call}
      (h : Sampler.PollsOpen n.sampler n.table (sampler, table, polled) calls) :
      Step n (Voice.schedule.notes calls) { n with sampler, table }
  | transmit {now : Timestamp} {o : Outgoing} {outcome : SendOutcome} {calls : List Call}
      (hdue : n.clock.due now = true)
      (h : Outgoing.Sends { n.outgoing with clock := n.clock.advance } now (o, outcome) calls) :
      Step n (Voice.schedule.notes calls ++ [.sent n.table o.table]) (n.withOutgoing o)
  | answer {now : Timestamp} {good : Bool} {o : Outgoing} {outcome : Option SendOutcome}
      {calls : List Call} (h : Outgoing.Answers n.outgoing now good (o, outcome) calls) :
      Step n (Voice.schedule.notes calls ++ [.sent n.table o.table]) (n.withOutgoing o)
  | nap {calls : List Call} (slept : Bool) (h : ∀ c ∈ calls, c.ToBoard) :
      Step n (Voice.schedule.notes calls) { n with sleeper := { n.sleeper with slept } }
  | aside (calls : List Call) : Step n (Voice.aside.notes calls) n
  | touch {table : Table} (h : n.table.Touches table) : Step n [] { n with table }
  | drop : Step n [] { n with offline := true, uplink := n.uplink.resetCursors }
  | relink (now : Timestamp) :
      Step n [] { n with offline := false, clock := n.clock.restart now }
  | switch (enabled : Bool) : Step n [] { n with enabled }
  | wake (now : Timestamp) (h : n.enabled = false) :
      Step n [] { n with
        enabled := true
        clock := n.clock.restart now
        sampler := n.sampler.restart now }
  | power (mode : PowerMode) : Step n [] (n.setPower mode)
  | interval {n' : Node} (interval : UInt32) (h : n.setInterval interval = .ok n') : Step n [] n'

inductive Path : Node → List Note → Node → Prop where
  | nil (n : Node) : Path n [] n
  | cons {n n' n'' : Node} {notes more : List Note} (h : Step n notes n')
      (hrest : Path n' more n'') : Path n (notes ++ more) n''

namespace Path

theorem single {n n' : Node} {notes : List Note} (h : Step n notes n') : Path n notes n' := by
  have hpath := Path.cons h (.nil n')
  rwa [List.append_nil] at hpath

theorem trans {n n' n'' : Node} {notes more : List Note} (h : Path n notes n')
    (hrest : Path n' more n'') : Path n (notes ++ more) n'' := by
  induction h with
  | nil n => exact hrest
  | cons h _ ih =>
      rw [List.append_assoc]
      exact .cons h (ih hrest)

/-- Calls made aside, with a chain of reads. -/
theorem of_touches {n : Node} {table : Table} (calls : List Call)
    (h : Relation.ReflTransGen Table.Touches n.table table) :
    Path n (Voice.aside.notes calls) { n with table } := by
  induction h with
  | refl => exact .single (.aside calls)
  | tail _ hlast ih =>
      have hstep := Step.touch (n := { n with table := _ }) hlast
      have hpath := ih.trans (.single hstep)
      rwa [List.append_nil] at hpath

end Path

/-- What one operation comes to: steps in a row, or an edit. -/
inductive Deed (n : Node) : List Note → Node → Prop where
  | steps {notes : List Note} {n' : Node} (h : Path n notes n') : Deed n notes n'
  | edit {table : Table} (calls : List Call) (h : n.table.Edits table) :
      Deed n (Voice.aside.notes calls) { n with table }

/-! ## Operations are paths

Every part of an operation is judged to be a path, and parts in a row are a
path again. -/

section

variable {α β : Type} {a' : Action (W × List Note) α} {a : Action W α}
  {f' : α → Action (W × List Note) β} {f : α → Action W β} {v : Voice}

theorem path_bind {n : Node} {last : β → Node} (mid : α → Node)
    (ha : a'.Traced a fun x new => Path n new (mid x))
    (hf : ∀ x, (f' x).Traced (f x) fun y new => Path (mid x) new (last y)) :
    (a' >>= f').Traced (a >>= f) fun y new => Path n new (last y) :=
  ha.bind fun x _ hpath => (hf x).imp fun _ _ hrest => hpath.trans hrest

theorem path_after {n : Node} {last : β → Node}
    (ha : Action.Speaks v a' a fun _ calls => calls = [])
    (hf : ∀ x, (f' x).Traced (f x) fun y new => Path n new (last y)) :
    (a' >>= f').Traced (a >>= f) fun y new => Path n new (last y) := by
  refine Action.Traced.bind ha ?_
  intro x _ hr
  obtain ⟨calls, rfl, rfl⟩ := hr
  exact hf x

/-- Reads, aside from the schedule, followed by what is done with their outcome. -/
theorem path_touches {n : Node} {last : β → Node} (table : α → Table)
    (ha : Action.Speaks .aside a' a fun x _ =>
      Relation.ReflTransGen Table.Touches n.table (table x))
    (hf : ∀ x, (f' x).Traced (f x) fun y new => Path { n with table := table x } new (last y)) :
    (a' >>= f').Traced (a >>= f) fun y new => Path n new (last y) := by
  refine path_bind (fun x => { n with table := table x }) (Action.Traced.imp ha ?_) hf
  intro x _ hr
  obtain ⟨calls, rfl, h⟩ := hr
  exact .of_touches calls h

end

variable (d : Devices W) (n : Node)

theorem sendRequested_path :
    (n.sendRequested (d.voiced .aside)).Traced (n.sendRequested d) fun n' new => Path n new n' := by
  unfold sendRequested
  refine path_touches Prod.fst
    (InstantSend.run_speaks d n.settings.instantGuard n.uplink n.clock n.table) ?_
  intro r
  obtain ⟨table, outcome⟩ := r
  cases outcome with
  | ok sent =>
      simp only []
      split
      · exact path_after (d.log_speaks _ _) fun _ => .pure (.nil _)
      · exact .pure (.nil _)
  | error cause => exact path_after (d.log_speaks _ _) fun _ => .pure (.nil _)

theorem sampleBy_path :
    (n.sampleBy (.full d)).Traced (n.sampleBy (.blind d)) fun n' new => Path n new n' := by
  unfold sampleBy
  refine path_after d.now_speaks fun now => ?_
  split
  · next hdue =>
      refine (Watch.mark_traced d (.turn now)).bind ?_
      intro _ _ heq
      subst heq
      refine Action.Traced.bind (Sampler.turn_speaks d n.sampler n.table n.clock now) ?_
      intro r _ hr
      obtain ⟨sampler, table⟩ := r
      obtain ⟨calls, rfl, h⟩ := hr
      refine .pure ?_
      rw [List.append_nil]
      exact .single (.turn hdue h)
  · exact .pure (.nil n)

theorem transmitBy_path :
    (n.transmitBy (.full d)).Traced (n.transmitBy (.blind d)) fun x new => Path n new x.1 := by
  unfold transmitBy
  refine path_after d.now_speaks fun now => ?_
  split
  · next hdue =>
      refine path_after (d.log_speaks _ _) fun _ => ?_
      refine Action.Traced.bind (Outgoing.send_speaks d _ now) ?_
      intro r _ hr
      obtain ⟨o, outcome⟩ := r
      obtain ⟨calls, rfl, h⟩ := hr
      refine (Watch.mark_traced d _).bind ?_
      intro _ _ heq
      subst heq
      refine .pure ?_
      rw [List.append_nil]
      exact .single (.transmit hdue h)
  · exact .pure (.nil n)

theorem poll_path :
    (n.poll (d.voiced .schedule)).Traced (n.poll d) fun x new => Path n new x.1 := by
  unfold poll
  refine Action.Traced.bind (Sampler.pollOpen_speaks d n.sampler n.table) ?_
  intro r _ hr
  obtain ⟨sampler, table, polled⟩ := r
  obtain ⟨calls, rfl, h⟩ := hr
  refine .pure ?_
  rw [List.append_nil]
  exact .single (.poll h)

theorem settle_path :
    (n.settle (d.voiced .schedule)).Traced (n.settle d) fun x new => Path n new x.1 := by
  unfold settle
  refine path_bind Prod.fst (poll_path d n) ?_
  intro r
  obtain ⟨n', polled⟩ := r
  simp only []
  split
  · refine path_after d.now_speaks fun now => ?_
    refine Action.Traced.bind (n'.sleeper.rest_speaks d n'.sampler n'.clock now) ?_
    intro r _ hr
    obtain ⟨sleeper, decision⟩ := r
    obtain ⟨calls, rfl, ⟨slept, hslept⟩, h⟩ := hr
    simp only at hslept
    subst hslept
    refine .pure ?_
    rw [List.append_nil]
    exact .single (.nap slept h)
  · exact .pure (.nil n')

theorem iterateOffline_path :
    (n.iterateOffline (d.voiced .schedule)).Traced (n.iterateOffline d)
      fun x new => Path n new x.1 := by
  unfold iterateOffline
  refine path_bind id ?_ fun n₁ => path_bind Prod.fst (poll_path d n₁) fun x => .pure (.nil x.1)
  split
  · exact .pure (.nil n)
  · exact path_after (d.log_speaks _ _) fun _ => .pure (.single .drop)

theorem iterateOnlineBy_path :
    (n.iterateOnlineBy (.full d)).Traced (n.iterateOnlineBy (.blind d))
      fun x new => Path n new x.1 := by
  unfold iterateOnlineBy
  refine path_bind id ?_ fun n₁ => ?_
  · refine path_after d.ready_speaks fun ready => ?_
    split
    · exact sendRequested_path d n
    · exact .pure (.nil n)
  · refine path_bind id (sampleBy_path d n₁) fun n₂ => ?_
    refine path_bind Prod.fst (transmitBy_path d n₂) fun x => ?_
    refine path_bind Prod.fst (settle_path d x.1) fun y => ?_
    exact .pure (.nil y.1)

theorem iterateBy_path :
    (n.iterateBy (.full d)).Traced (n.iterateBy (.blind d)) fun x new => Path n new x.1 := by
  unfold iterateBy
  split
  · exact .pure (.nil n)
  · refine path_after d.connected_speaks fun connected => ?_
    split
    · exact iterateOffline_path d n
    · split
      · refine path_after (d.log_speaks _ _) fun _ => ?_
        exact path_after d.now_speaks fun now => .pure (.single (.relink now))
      · exact iterateOnlineBy_path d n

theorem answerBy_path (good : Bool) :
    (n.answerBy (.full d) good).Traced (n.answerBy (.blind d) good)
      fun x new => Path n new x.1 := by
  unfold answerBy
  refine path_after d.now_speaks fun now => ?_
  refine Action.Traced.bind (Outgoing.answer_speaks d n.outgoing good now) ?_
  intro r _ hr
  obtain ⟨o, outcome⟩ := r
  obtain ⟨calls, rfl, h⟩ := hr
  refine (Watch.mark_traced d _).bind ?_
  intro _ _ heq
  subst heq
  refine .pure ?_
  rw [List.append_nil]
  exact .single (.answer h)

theorem setEnabled_path (enabled : Bool) :
    (n.setEnabled (d.voiced .aside) enabled).Traced (n.setEnabled d enabled)
      fun n' new => Path n new n' := by
  unfold setEnabled
  split
  · next h =>
      obtain ⟨rfl, hoff⟩ := Bool.and_eq_true_iff.mp h
      refine path_after d.now_speaks fun now => .pure (.single (.wake now ?_))
      simpa only [Bool.not_eq_true'] using hoff
  · exact .pure (.single (.switch enabled))

theorem apply_edits (e : Edit) (t : Table) :
    Action.Speaks .aside (e.apply (d.voiced .aside) t) (e.apply d t) fun t' _ => t.Edits t' := by
  have hfst : ∀ {α : Type} {a' : Action (W × List Note) (Table × α)} {a : Action W (Table × α)},
      Action.Speaks .aside a' a (fun x _ => t.Edits x.1) →
      Action.Speaks .aside (Prod.fst <$> a') (Prod.fst <$> a) fun t' _ => t.Edits t' :=
    fun h => h.bind fun x _ hx => .pure hx
  cases e with
  | add m => exact hfst ((t.add_speaks d m).imp fun _ _ h => .added h)
  | remove name => exact hfst (t.remove_speaks d name)
  | rename old new => exact hfst (t.rename_speaks d old new)
  | setPeriod name period => exact hfst (t.setPeriod_speaks d name period)
  | setSampleCount name sampleCount => exact hfst (t.setSampleCount_speaks d name sampleCount)
  | setImmediate name immediate => exact hfst (t.setImmediate_speaks name immediate)
  | request name => exact hfst (t.request_speaks name)

theorem read_path (name : String) (timeout : Option UInt32) :
    (n.read (d.voiced .aside) name timeout).Traced (n.read d name timeout)
      fun x new => Path n new x.1 := by
  unfold read
  refine path_touches Prod.fst (n.table.read_speaks d name timeout) ?_
  intro r
  obtain ⟨table, result⟩ := r
  exact .pure (.nil _)

/-- Calls made aside that leave the node as it is. -/
theorem path_aside {α : Type} {a' : Action (W × List Note) α} {a : Action W α}
    {fit : α → List Call → Prop} (ha : Action.Speaks .aside a' a fit) :
    a'.Traced a fun _ new => Path n new n := by
  refine Action.Traced.imp ha ?_
  intro x _ hr
  obtain ⟨calls, rfl, _⟩ := hr
  exact .single (.aside calls)

theorem collectionTimeout_speaks {v : Voice} (name : String) :
    Action.Speaks v (n.collectionTimeout (d.voiced v) name) (n.collectionTimeout d name)
      fun _ _ => True := by
  unfold collectionTimeout
  split
  · exact .pure trivial
  · refine (d.leadTime_speaks _ _).bind ?_
    intro ms _ _
    exact .pure trivial

theorem sendReading_speaks {v : Voice} (m : Definition) (name : String) (r : Reading) :
    Action.Speaks v (sendReading (d.voiced v) m name r) (sendReading d m name r)
      fun _ calls => ∀ c ∈ calls, c.OfFrame := by
  unfold sendReading
  refine (d.appendReading_speaks m r).bind ?_
  intro answer _ heq
  subst heq
  have happend : (Call.appendReading m r answer).OfFrame := .appendReading m r answer
  cases answer with
  | error cause =>
      exact .after (d.log_speaks _ _) fun _ => .pure (List.forall_mem_singleton.mpr happend)
  | ok _ =>
      refine d.send_speaks.bind ?_
      intro sent _ heq
      subst heq
      have hboth : ∀ c ∈ [Call.appendReading m r (.ok ())] ++ ([Call.send sent] ++ []),
          c.OfFrame := List.forall_mem_cons.mpr
        ⟨happend, List.forall_mem_singleton.mpr (.send sent)⟩
      cases sent with
      | error cause => exact .pure hboth
      | ok _ => exact .after (d.log_speaks _ _) fun _ => .pure hboth

theorem sendTest_path (name : String) :
    (n.sendTest (d.voiced .aside) name).Traced (n.sendTest d name)
      fun x new => Path n new x.1 := by
  unfold sendTest
  refine path_after d.connected_speaks fun connected => ?_
  split
  · exact path_after (d.log_speaks _ _) fun _ => .pure (.nil n)
  · refine path_after d.ready_speaks fun ready => ?_
    split
    · exact path_after (d.log_speaks _ _) fun _ => .pure (.nil n)
    · refine path_bind (fun _ => n) (path_aside n d.openFrame_speaks) fun answer => ?_
      cases answer with
      | error cause => exact .pure (.nil n)
      | ok _ =>
          refine path_bind Prod.fst (read_path d n name none) ?_
          intro r
          obtain ⟨n', result⟩ := r
          cases result with
          | error cause => exact .pure (.nil n')
          | ok r =>
              simp only []
              cases n'.table.find? name with
              | none => exact .pure (.nil n')
              | some e =>
                  refine path_bind (fun _ => n')
                    (path_aside n' (sendReading_speaks d e.definition name r)) fun outcome => ?_
                  exact .pure (.nil n')

/-- An edit, and the node with the edited table. -/
theorem deed_of_edits {α β : Type} {a' : Action (W × List Note) α} {a : Action W α}
    {f' : α → Action (W × List Note) β} {f : α → Action W β} {last : β → Node} (table : α → Table)
    (ha : Action.Speaks .aside a' a fun x _ => n.table.Edits (table x))
    (hf : ∀ x, (f' x).Traced (f x)
      fun y new => new = [] ∧ last y = { n with table := table x }) :
    (a' >>= f').Traced (a >>= f) fun y new => Deed n new (last y) := by
  refine Action.Traced.bind ha ?_
  intro x _ hr
  obtain ⟨calls, rfl, h⟩ := hr
  refine (hf x).imp ?_
  intro y _ hr
  obtain ⟨rfl, hlast⟩ := hr
  rw [hlast, List.append_nil]
  exact .edit calls h

/-- An operation that is no edit is a path. -/
theorem performBy_path {op : Op} (hop : op.edits = false) :
    (n.performBy (.full d) op).Traced (n.performBy (.blind d) op)
      fun n' new => Path n new n' := by
  have hfst : ∀ {α : Type} {a' : Action (W × List Note) (Node × α)} {a : Action W (Node × α)},
      a'.Traced a (fun x new => Path n new x.1) →
      (Prod.fst <$> a').Traced (Prod.fst <$> a) fun n' new => Path n new n' :=
    fun h => path_bind Prod.fst h fun x => .pure (.nil x.1)
  cases op with
  | iterate => exact hfst (iterateBy_path d n)
  | answer good => exact hfst (answerBy_path d n good)
  | setEnabled enabled => exact setEnabled_path d n enabled
  | setPower power => exact .pure (.single (.power power))
  | setInterval interval =>
      refine .pure ?_
      cases h : n.setInterval interval with
      | error cause => exact .nil n
      | ok n' => exact .single (.interval interval h)
  | edit e => cases hop
  | load persisted defaults => cases hop
  | read name timeout => exact hfst (read_path d n name timeout)
  | collectionTimeout name =>
      have hpath : (n.performBy (.full d) (.collectionTimeout name)).Traced
          (n.performBy (.blind d) (.collectionTimeout name)) fun n' new => Path n new n' :=
        path_bind (fun _ => n) (path_aside n (collectionTimeout_speaks d n name))
          fun _ => .pure (.nil n)
      exact hpath
  | sendTest name => exact hfst (sendTest_path d n name)

theorem performBy_deed (op : Op) :
    (n.performBy (.full d) op).Traced (n.performBy (.blind d) op)
      fun n' new => Deed n new n' := by
  by_cases hop : op.edits = false
  · exact (performBy_path d n hop).imp fun _ _ h => .steps h
  cases op with
  | edit e => exact deed_of_edits n id (apply_edits d e n.table) fun table => .pure ⟨rfl, rfl⟩
  | load persisted defaults =>
      have hload : Action.Traced
          (n.table.load (d.voiced .aside) persisted defaults >>= fun x => pure { n with table := x.1 })
          (n.table.load d persisted defaults >>= fun x => pure { n with table := x.1 })
          fun n' new => Deed n new n' :=
        deed_of_edits n Prod.fst (n.table.load_speaks d persisted defaults)
          fun x => .pure ⟨rfl, rfl⟩
      exact hload
  | _ => exact absurd rfl hop

/-! ## Runs are made of deeds -/

/-- One operation, as the history and the plain run have it: the same node and
the same world. -/
theorem history_cons (m : Move W) (w : W) :
    ∃ notes n' w', Deed n notes n' ∧ ∀ rest,
      history d (m :: rest) n w = ⟨n, notes, n'⟩ :: history d rest n' w' ∧
      (run d (m :: rest) n).run w = (run d rest n').run w' := by
  obtain ⟨notes, hrun, hdeed⟩ := performBy_deed d n m.op (m.meanwhile w) []
  rw [List.nil_append] at hrun
  refine ⟨notes, ((n.performBy (.blind d) m.op).run (m.meanwhile w)).1,
    ((n.performBy (.blind d) m.op).run (m.meanwhile w)).2, hdeed, fun rest => ⟨?_, rfl⟩⟩
  simp only [history, hrun]

/-- What holds before a run and is kept by every operation,
holds of the history and of the node the plain run comes to. -/
theorem history_induction (claim : List Episode → Node → Prop)
    (hdeed : ∀ past n notes n', claim past n → Deed n notes n' →
      claim (past ++ [⟨n, notes, n'⟩]) n')
    (moves : List (Move W)) (past : List Episode) (w : W) (hstart : claim past n) :
    claim (past ++ history d moves n w) ((run d moves n).run w).1 := by
  induction moves generalizing past n w with
  | nil =>
      rw [history, List.append_nil]
      exact hstart
  | cons m rest ih =>
      obtain ⟨notes, n', w', hstep, hcons⟩ := history_cons d n m w
      have hrest := ih n' _ w' (hdeed past n notes n' hstart hstep)
      rw [(hcons rest).1, (hcons rest).2]
      simpa only [List.append_assoc, List.singleton_append] using hrest

/-- A run that goes on: its history is the history so far and that of the rest,
which begins where the run has come to. -/
theorem history_append (moves more : List (Move W)) (w : W) :
    history d (moves ++ more) n w = history d moves n w ++
      history d more ((run d moves n).run w).1 ((run d moves n).run w).2 := by
  induction moves generalizing n w with
  | nil => rfl
  | cons m rest ih =>
      obtain ⟨notes, n', w', _, hcons⟩ := history_cons d n m w
      rw [List.cons_append, (hcons _).1, (hcons _).1, (hcons _).2, ih, List.cons_append]

/-- The history of a run ends with the node the plain run comes to. -/
theorem after_history (moves : List (Move W)) (w : W) :
    ((history d moves n w).getLast?.map Episode.after).getD n = ((run d moves n).run w).1 := by
  refine history_induction d n (fun past n' =>
    (past.getLast?.map Episode.after).getD n = n') ?_ moves [] w rfl
  intro past n₁ notes n₂ _ _
  rw [List.getLast?_concat]
  rfl

end Telemetry.Node

namespace Telemetry.Life

theorem past_continued {W : Type} (l : Life W) (more : List (Move W)) :
    (l.continued more).past = l.past ++ Node.history l.devices more l.node l.present :=
  Node.history_append l.devices l.birth l.moves more l.world

end Telemetry.Life
