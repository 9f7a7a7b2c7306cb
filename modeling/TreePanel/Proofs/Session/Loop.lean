import TreePanel.Proofs.Session.Handle

/-!
# The loop over messages ends

`Session.handle` goes two rounds. Here the loop is given as it runs without a bound, as the relation
`Session.Loop`: messages are taken from the inbox until none is left. It refills its inbox from the
editor's answers, and nothing counts its turns; that it ends rests on what the panel can answer a
message with. `Message.grants` bounds the transactions that a message may lead to: one for input,
none for an update or a tick (`Panel.react_grants`). Each transaction is answered by one update, so
a turn takes a message from the inbox and puts back messages that grant nothing. The messages of an
inbox together with what they grant therefore bound the turns that are left
(`Loop.exists_of_inbox`), and one message takes two turns at the most.

Two rounds are thus as good as any number (`Loop.drain_eq`), and `handle_eq_loop` states the result
for `Session.handle`, beside any editor, whatever it answers.
-/

namespace TreePanel

/-! ## The transactions of a command -/

namespace Command

mutual
/-- The transactions that a command sends, in order, at whatever depth of batches they stand. -/
def transactions : Command → List Transaction
  | dispatch transaction => [transaction]
  | batch commands => transactionsAll commands
  | none | redraw | decorate _ | scrollTo _ => []

/-- The transactions of several commands, one after the other. -/
def transactionsAll : List Command → List Transaction
  | [] => []
  | c :: rest => c.transactions ++ transactionsAll rest
end

/-- Two lists of commands send what the first sends and then what the second sends. -/
@[simp] theorem transactionsAll_append (cs ds : List Command) :
    transactionsAll (cs ++ ds) = transactionsAll cs ++ transactionsAll ds := by
  induction cs with
  | nil => rfl
  | cons c rest ih => simp [transactionsAll, ih]

/-- Batching commands neither adds nor drops a transaction. -/
@[simp] theorem transactionsAll_ofList? (cs : List Command) :
    transactionsAll (ofList? cs).toList = transactionsAll cs := by
  match cs with
  | [] => rfl
  | [c] => rfl
  | c :: d :: rest => simp [ofList?, transactionsAll, transactions]

end Command

namespace Mounted

variable {m m' : Mounted} {origin : Origin} {input : Input} {command : Option Command}

/-- Letting the mark follow the highlight sends nothing. -/
theorem transactionsAll_decorations (m : Mounted) (u : Update) :
    Command.transactionsAll (m.decorations u) = [] := by
  simp only [decorations]
  split <;> rfl

/-- The reaction to an update sends nothing. -/
theorem onUpdate_transactions {settings : Settings} {lineAt : Nat → Except Fault Line} {u : Update}
    (h : m.onUpdate settings lineAt u = .ok (command, m')) :
    Command.transactionsAll command.toList = [] := by
  by_cases hs : m.Shows u
  · rw [onUpdate_of_shows hs] at h
    cases h
    rw [Command.transactionsAll_ofList?, transactionsAll_decorations]
  · rw [onUpdate_of_not_shows hs] at h
    obtain ⟨outline, -, hdone⟩ := map_eq_ok.1 h
    cases hdone
    rw [Command.transactionsAll_ofList?, Command.transactionsAll_append,
      transactionsAll_decorations]
    -- Beside the mark there is a paint, and at the most a row to scroll to.
    split
    · rfl
    · cases outline.center <;> rfl

/-- The reaction to a tick sends nothing. -/
theorem onTick_transactions (m : Mounted) :
    Command.transactionsAll m.onTick.1.toList = [] := by
  unfold onTick
  split <;> rfl

/-- The reaction to input sends one transaction at the most. -/
theorem onInput_transactions (h : m.onInput origin input = .ok (command, m')) :
    (Command.transactionsAll command.toList).length ≤ 1 := by
  cases onInput_answer h with
  | ignored => exact Nat.zero_le 1
  | scrolled wheel moved =>
    split
    · exact Nat.zero_le 1
    · exact Nat.zero_le 1
  | lit hover => exact Nat.le_refl 1
  | selected click clicked => exact Nat.le_refl 1

/-- Input dealt with by starting over, with the row under a point in place of the point, as many
levels deep as given. No result means that it is not deep enough. -/
def onInputWithin (m : Mounted) (origin : Origin) :
    Nat → Input → Except Fault (Option (Option Command × Mounted))
  | _, .atRow input => return some (← m.onRowInput origin input)
  | 0, .moved _ _ | 0, .pressed _ _ => return none
  | levels + 1, .moved x y => do
    match ← m.rowAt x y with
    | some index => m.onInputWithin origin levels (.atRow (.hoverRow index))
    | none => m.onInputWithin origin levels (.atRow .leave)
  | levels + 1, .pressed x y => do
    match ← m.rowAt x y with
    | some index => m.onInputWithin origin levels (.atRow (.clickRow index))
    | none => return some (none, m)

/-- Starting over once deals with all input. -/
theorem onInputWithin_one (m : Mounted) (origin : Origin) (input : Input) :
    m.onInputWithin origin 1 input = (m.onInput origin input).map some := by
  cases input with
  | atRow input =>
    show (m.onRowInput origin input >>= fun reaction => pure (some reaction)) = _
    show _ = (m.onRowInput origin input).map some
    cases m.onRowInput origin input <;> rfl
  | moved x y =>
    rw [onInputWithin, onInput, resolve]
    cases m.rowAt x y with
    | error fault => rfl
    | ok row? => cases row? <;> rfl
  | pressed x y =>
    rw [onInputWithin, onInput, resolve]
    cases m.rowAt x y with
    | error fault => rfl
    | ok row? => cases row? <;> rfl

end Mounted

/-- How many transactions a message may lead to. -/
def Message.grants : Message → Nat
  | .input _ => 1
  | .update _ | .tick => 0

/-- No message grants more than one transaction. -/
theorem Message.grants_le_one (message : Message) : message.grants ≤ 1 := by
  cases message with
  | input input => exact Nat.le_refl 1
  | update u => exact Nat.zero_le 1
  | tick => exact Nat.zero_le 1

/-- A panel answers a message with no more transactions than the message grants. -/
theorem Panel.react_grants {p p' : Panel} {lineAt : Nat → Except Fault Line} {message : Message}
    {command : Option Command} (h : p.react lineAt message = .ok (command, p')) :
    (Command.transactionsAll command.toList).length ≤ message.grants := by
  cases reaction_of_react h with
  | unmounted hm => exact Nat.zero_le _
  | update hm hreact =>
    exact Nat.le_of_eq (congrArg List.length (Mounted.onUpdate_transactions hreact))
  | input hm hreact => exact Mounted.onInput_transactions hreact
  | tick hm => exact Nat.le_of_eq (congrArg List.length (Mounted.onTick_transactions _))

namespace Session

variable {σ : Type} [EditorHost σ] {o o' : Outcome σ} {message : Message}

/-! ## The loop -/

/-- One turn of the loop: the message that was taken, and the command that answered it. -/
structure Turn where
  message : Message
  command : Option Command

/-- The transactions that were sent in a turn. -/
def Turn.transactions (t : Turn) : List Transaction := Command.transactionsAll t.command.toList

/-- The loop from an outcome to its result, turn by turn: as long as there are messages in the
inbox, the oldest one is taken. A message that cannot be taken ends the loop. -/
inductive Loop : Outcome σ → List Turn → Except Fault (Outcome σ) → Prop where
  /-- No message is left. -/
  | empty {o : Outcome σ} : o.inbox = [] → Loop o [] (.ok o)
  /-- The panel cannot deal with the oldest message. -/
  | fault {o : Outcome σ} {message : Message} {rest : List Message} {fault : Fault} :
      o.inbox = message :: rest → take { o with inbox := rest } message = .error fault →
        Loop o [⟨message, none⟩] (.error fault)
  /-- The oldest message is taken. -/
  | turn {o o' : Outcome σ} {message : Message} {rest : List Message} {command : Option Command}
      {panel : Panel} {turns : List Turn} {result : Except Fault (Outcome σ)} :
      o.inbox = message :: rest →
        o.session.panel.react (EditorHost.lineAt o.session.host) message = .ok (command, panel) →
        take { o with inbox := rest } message = .ok o' → Loop o' turns result →
          Loop o (⟨message, command⟩ :: turns) result

namespace Loop

variable {turns turns' : List Turn} {result result' : Except Fault (Outcome σ)}

/-- The loop goes only one way. -/
theorem unique (h : Loop o turns result) (h' : Loop o turns' result') :
    turns' = turns ∧ result' = result := by
  -- Along the first loop: the inbox and the oldest message decide how the second one goes on.
  induction h generalizing turns' with
  | empty hinbox =>
    cases h' with
    | empty => exact ⟨rfl, rfl⟩
    | fault hnext => rw [hinbox] at hnext; cases hnext
    | turn hnext => rw [hinbox] at hnext; cases hnext
  | fault hinbox htake =>
    cases h' with
    | empty hnone => rw [hinbox] at hnone; cases hnone
    | fault hnext htake' =>
      cases hinbox.symm.trans hnext
      cases htake.symm.trans htake'
      exact ⟨rfl, rfl⟩
    | turn hnext _ htake' =>
      cases hinbox.symm.trans hnext
      cases htake.symm.trans htake'
  | turn hinbox hreact htake _ ih =>
    cases h' with
    | empty hnone => rw [hinbox] at hnone; cases hnone
    | fault hnext htake' =>
      cases hinbox.symm.trans hnext
      cases htake.symm.trans htake'
    | turn hnext hreact' htake' hrest =>
      cases hinbox.symm.trans hnext
      cases hreact.symm.trans hreact'
      cases htake.symm.trans htake'
      obtain ⟨rfl, rfl⟩ := ih hrest
      exact ⟨rfl, rfl⟩

/-- As many rounds as there are turns do what the loop does. -/
theorem drain_eq (h : Loop o turns result) {n : Nat} (hn : turns.length ≤ n) :
    drain n o = result := by
  induction h generalizing n with
  | empty hinbox =>
    cases n with
    | zero => rfl
    | succ n => rw [drain, hinbox]; rfl
  | fault hinbox htake =>
    cases n with
    | zero => exact absurd hn (Nat.not_succ_le_zero _)
    | succ n => rw [drain, hinbox]; simp only [htake]; rfl
  | turn hinbox _ htake _ ih =>
    cases n with
    | zero => exact absurd hn (Nat.not_succ_le_zero _)
    | succ n =>
      rw [drain, hinbox]
      simp only [htake]
      exact ih (Nat.le_of_succ_le_succ hn)

/-- A loop that comes to an end leaves no message. -/
theorem inbox_eq_nil (h : Loop o turns (.ok o')) : o'.inbox = [] := by
  generalize hresult : (Except.ok o' : Except Fault (Outcome σ)) = result at h
  induction h with
  | empty hinbox => cases hresult; exact hinbox
  | fault => cases hresult
  | turn _ _ _ _ ih => exact ih hresult

end Loop

/-! ## Why it ends -/

mutual
/-- Performing a command puts one update in the inbox for each of its transactions. -/
theorem inbox_perform (o : Outcome σ) (c : Command) :
    ∃ updates : List Update, (c.flatten.foldl perform o).inbox = o.inbox ++ updates.map .update ∧
      updates.length = c.transactions.length := by
  cases c with
  | dispatch t => exact ⟨[(EditorHost.dispatch o.session.host t).1], rfl, rfl⟩
  | batch commands => exact inbox_performAll o commands
  | none => exact ⟨[], (List.append_nil _).symm, rfl⟩
  | redraw => exact ⟨[], (List.append_nil _).symm, rfl⟩
  | decorate span => exact ⟨[], (List.append_nil _).symm, rfl⟩
  | scrollTo row => exact ⟨[], (List.append_nil _).symm, rfl⟩

/-- Performing several commands puts one update in the inbox for each of their transactions. -/
theorem inbox_performAll (o : Outcome σ) (cs : List Command) :
    ∃ updates : List Update,
      ((Command.flattenAll cs).foldl perform o).inbox = o.inbox ++ updates.map .update ∧
        updates.length = (Command.transactionsAll cs).length := by
  cases cs with
  | nil => exact ⟨[], (List.append_nil _).symm, rfl⟩
  | cons c rest =>
    obtain ⟨first, hfirst, hlen⟩ := inbox_perform o c
    obtain ⟨others, hothers, hlen'⟩ := inbox_performAll (c.flatten.foldl perform o) rest
    refine ⟨first ++ others, ?_, ?_⟩
    · rw [Command.flattenAll_cons, List.foldl_append, hothers, hfirst, List.map_append,
        List.append_assoc]
    · rw [Command.transactionsAll, List.length_append, List.length_append, hlen, hlen']
end

/-- A turn puts one update in the inbox for each transaction of the panel's command. -/
theorem inbox_take (h : take o message = .ok o') :
    ∃ command panel, ∃ updates : List Update,
      o.session.panel.react (EditorHost.lineAt o.session.host) message = .ok (command, panel) ∧
        o'.inbox = o.inbox ++ updates.map .update ∧
        updates.length = (Command.transactionsAll command.toList).length := by
  obtain ⟨⟨command, panel⟩, hreact, hperform⟩ := bind_eq_ok.1 h
  cases command with
  | none =>
    cases hperform
    exact ⟨none, panel, [], hreact, (List.append_nil _).symm, rfl⟩
  | some c =>
    cases hperform
    obtain ⟨updates, hinbox, hlen⟩ := inbox_performAll
      ⟨{ o.session with panel := panel }, o.redraw || c.needsRedraw, o.inbox⟩ [c]
    rw [Command.flattenAll_cons, Command.flattenAll_nil, List.append_nil] at hinbox
    exact ⟨some c, panel, updates, hreact, hinbox, hlen⟩

/-- How many transactions the messages of an inbox may lead to. -/
def granted : List Message → Nat
  | [] => 0
  | message :: rest => message.grants + granted rest

/-- Updates add nothing to what an inbox grants. -/
theorem granted_append_updates (inbox : List Message) (updates : List Update) :
    granted (inbox ++ updates.map .update) = granted inbox := by
  induction inbox with
  | nil =>
    induction updates with
    | nil => rfl
    | cons u rest ih => exact (Nat.zero_add _).trans ih
  | cons message rest ih => exact congrArg (message.grants + ·) ih

/-- From every inbox the loop ends. It takes no more turns than there are messages and transactions
that these may lead to, and no more transactions are sent. -/
theorem Loop.exists_of_inbox {n : Nat} (hn : o.inbox.length + granted o.inbox ≤ n) :
    ∃ turns result, Loop o turns result ∧ turns.length ≤ n ∧
      (turns.flatMap Turn.transactions).length ≤ granted o.inbox := by
  -- The messages and what they grant are fewer after each turn.
  induction n generalizing o with
  | zero =>
    have hinbox : o.inbox = [] := List.eq_nil_of_length_eq_zero (by omega)
    exact ⟨[], .ok o, .empty hinbox, Nat.le_refl 0, Nat.zero_le _⟩
  | succ n ih =>
    cases hinbox : o.inbox with
    | nil => exact ⟨[], .ok o, .empty hinbox, Nat.zero_le _, Nat.zero_le _⟩
    | cons message rest =>
      cases htake : take { o with inbox := rest } message with
      | error fault =>
        exact ⟨_, _, .fault hinbox htake, Nat.succ_le_succ (Nat.zero_le n), Nat.zero_le _⟩
      | ok next =>
        obtain ⟨command, panel, updates, hreact, hrest, hlen⟩ := inbox_take htake
        have hgrants := Panel.react_grants hreact
        have hgranted : granted o.inbox = message.grants + granted rest := by rw [hinbox]; rfl
        have hsame : granted next.inbox = granted rest := by rw [hrest, granted_append_updates]
        have hlength : next.inbox.length = rest.length + updates.length := by
          rw [hrest, List.length_append, List.length_map]
        have hbefore : o.inbox.length = rest.length + 1 := by rw [hinbox, List.length_cons]
        -- What the message grants pays for the updates that it leads to.
        have hless : next.inbox.length + granted next.inbox ≤ n := by omega
        obtain ⟨turns, result, hloop, hturns, hsent⟩ := ih hless
        refine ⟨⟨message, command⟩ :: turns, result, .turn hinbox hreact htake hloop,
          Nat.succ_le_succ hturns, ?_⟩
        rw [← hinbox, hgranted, List.flatMap_cons, List.length_append]
        rw [hsame] at hsent
        exact Nat.add_le_add hgrants hsent

/-- No more transactions are sent in a loop than the messages in its inbox grant. -/
theorem Loop.length_transactions_le {turns : List Turn} {result : Except Fault (Outcome σ)}
    (h : Loop o turns result) : (turns.flatMap Turn.transactions).length ≤ granted o.inbox := by
  -- There is a loop that sends no more, and there is only one.
  obtain ⟨turns', result', hloop, -, hsent⟩ := Loop.exists_of_inbox (o := o) (Nat.le_refl _)
  rwa [(h.unique hloop).1] at hsent

/-- Handling a message ends, beside any editor. The loop without a bound goes one way, has a result,
and `handle` has that result: a fault, or an outcome that leaves no message. The panel reacts to two
messages at the most, and one transaction is sent at the most. For whatever the state of a panel,
its answer to an update or a tick sends nothing at any depth of batches, and its answer to input
sends one transaction at the most; and input that starts over with other input does so once. -/
theorem handle_eq_loop (s : Session σ) (message : Message) :
    (∃ turns result, Loop ⟨s, false, [message]⟩ turns result ∧
      (∀ turns' result', Loop ⟨s, false, [message]⟩ turns' result' →
        turns' = turns ∧ result' = result) ∧
      s.handle message = result.map (fun o => (o.redraw, o.session)) ∧
      (∀ o, result = .ok o → o.inbox = []) ∧
      turns.length ≤ 2 ∧ (turns.flatMap Turn.transactions).length ≤ 1) ∧
    (∀ (p p' : Panel) (lineAt : Nat → Except Fault Line) (command : Command),
      (∀ u, p.react lineAt (.update u) = .ok (some command, p') → command.transactions = []) ∧
      (p.react lineAt .tick = .ok (some command, p') → command.transactions = []) ∧
      ∀ input, p.react lineAt (.input input) = .ok (some command, p') →
        command.transactions.length ≤ 1) ∧
    ∀ (m : Mounted) (origin : Origin) (input : Input),
      m.onInputWithin origin 1 input = (m.onInput origin input).map some := by
  refine ⟨?_, fun p p' lineAt command => ?_, Mounted.onInputWithin_one⟩
  · -- One message, and one transaction that it may lead to.
    have hgrants := message.grants_le_one
    have hgranted : granted [message] = message.grants := Nat.add_zero _
    have hinbox : [message].length + granted [message] ≤ 2 := by
      rw [hgranted, List.length_singleton]
      omega
    obtain ⟨turns, result, hloop, hturns, hsent⟩ :=
      Loop.exists_of_inbox (o := ⟨s, false, [message]⟩) hinbox
    refine ⟨turns, result, hloop, fun _ _ => hloop.unique, ?_, ?_, hturns, ?_⟩
    · unfold handle
      -- The two rounds are enough for the two turns.
      rw [hloop.drain_eq (n := rounds) hturns]
      cases result <;> rfl
    · rintro o rfl
      exact hloop.inbox_eq_nil
    · rw [hgranted] at hsent
      exact Nat.le_trans hsent hgrants
  · have hsent : ∀ {message : Message}, p.react lineAt message = .ok (some command, p') →
        command.transactions.length ≤ message.grants := by
      intro message hreact
      have h := Panel.react_grants hreact
      rwa [Option.toList_some, Command.transactionsAll, Command.transactionsAll,
        List.append_nil] at h
    exact ⟨fun u h => List.eq_nil_of_length_eq_zero (Nat.le_zero.1 (hsent h)),
      fun h => List.eq_nil_of_length_eq_zero (Nat.le_zero.1 (hsent h)), fun input => hsent⟩

end Session

end TreePanel
