import ChainLedger.Proofs.Comparison

set_option autoImplicit false

namespace ChainLedger

/-- What an operation of one system is in another with other allocators. Ledgers and parents are
not the same there. -/
def Op.recast {T T' : Layering} {π π' : Type} [Parent π] [Parent π']
    (owner : Handle T → Handle T') : Op T π → Except Problem (Op T' π')
  | .node target demand handle value => .ok (.node target demand (owner handle) value)
  | .chain target demand handle given => .ok (.chain target demand (owner handle) given)
  | .empty target handle => .ok (.empty target (owner handle))
  | .inspect name position => .ok (.inspect name position)
  | .link name position source target => .ok (.link name position source target)
  | .unlink name position target => .ok (.unlink name position target)
  | .release name target => .ok (.release name target)
  | .move name target => .ok (.move name target)
  | .drop name => .ok (.drop name)
  | .intoHead name target => .ok (.intoHead name target)
  | .pushFront name demand value => .ok (.pushFront name demand value)
  | .popFront name => .ok (.popFront name)
  | .info name => .ok (.info name)
  | .values name => .ok (.values name)
  | .render name position style => .ok (.render name position style)
  | .stream name position steps => .ok (.stream name position steps)
  | .cursor name position steps => .ok (.cursor name position steps)
  | .walk name steps => .ok (.walk name steps)
  | .setBudget .. | .ledger _ | .renderLedger .. | .isLive .. | .allocate .. | .deallocate ..
  | .exchange .. => .error .noLedger
  | .configure _ => .error .badInput

def WalkStep.names : WalkStep → List String
  | .splitOff target => target.toList
  | .link source target => source.toList ++ target.toList
  | _ => []

def Op.names {T : Layering} {π : Type} [Parent π] : Op T π → List String
  | .node target .. | .chain target .. | .empty target _ => [target]
  | .link name _ source target => name :: (source.toList ++ target.toList)
  | .unlink name _ target | .release name target | .move name target | .intoHead name target =>
      name :: target.toList
  | .walk name steps => name :: steps.flatMap WalkStep.names
  | .inspect name _ | .drop name | .pushFront name .. | .popFront name | .info name | .values name
  | .render name .. | .stream name .. | .cursor name .. => [name]
  | .setBudget .. | .ledger _ | .renderLedger .. | .isLive .. | .allocate .. | .deallocate ..
  | .exchange .. | .configure _ => []

def Op.owners {T : Layering} {π : Type} [Parent π] : Op T π → List (Handle T)
  | .node _ _ owner _ | .chain _ _ owner _ | .empty _ owner => [owner]
  | _ => []

def Reply.Stands {T : Layering} (reply : Reply T) : Prop :=
  ∀ failure, reply ≠ .failed failure

namespace Reply.Stands

variable {T : Layering}

theorem answer (answer : Answer T) : (Reply.answer answer).Stands := nofun

theorem answers (answers : List (Answer T)) : (Reply.answers answers).Stands := nofun

theorem problem (problem : Problem) : (Reply.problem problem : Reply T).Stands := nofun

end Reply.Stands

namespace Session

variable {T : Layering} {π : Type}

theorem conclude_of_quiet {reply : Reply T} (stands : reply.Stands)
    {result : Option Fault × Session T π} (quiet : (conclude reply result).1.fault? = none) :
    result.1 = none ∧ conclude reply result = (reply, result.2) := by
  obtain ⟨_ | fault, session⟩ := result
  · exact ⟨rfl, rfl⟩
  · cases reply with
    | failed failure => exact absurd rfl (stands failure)
    | _ => cases quiet

theorem fault?_of_conclude {reply : Reply T} {result : Option Fault × Session T π}
    (quiet : (conclude reply result).1.fault? = none) : reply.fault? = none := by
  obtain ⟨_ | fault, session⟩ := result
  · exact quiet
  · cases reply with
    | failed failure => exact quiet
    | _ => rfl

end Session

namespace Comparison

variable {T T' : Layering} {π π' : Type} (comparison : Comparison T T' π π')

inductive Contents (met : Nat → Nat → Prop) : Register T → Register T' → Prop where
  | loose {tail tail'} (tails : comparison.Tails met tail tail') :
      Contents met (.loose tail) (.loose tail')
  | chain {tail tail' owner} (tails : comparison.Tails met tail tail')
      (allowed : comparison.Allowed owner) :
      Contents met (.chain ⟨tail, owner⟩) (.chain ⟨tail', comparison.owner owner⟩)

/-- The names of one party stand for the same contents in both. -/
def Directories (mine : String → Prop) (met : Nat → Nat → Prop) (registers : Registers T)
    (registers' : Registers T') : Prop :=
  ∀ name, mine name → Option.Rel (comparison.Contents met) (registers.get? name)
    (registers'.get? name)

structure Sessions (mine : String → Prop) (met : Nat → Nat → Prop) (session : Session T π)
    (session' : Session T' π') : Prop where
  stores : comparison.Stores met session.store session'.store
  directories : comparison.Directories mine met session.registers session'.registers

/-- Two operations with the same reply that leave sessions which go together. -/
def Agrees (mine : String → Prop) (met : Nat → Nat → Prop) (first : Reply T × Session T π)
    (second : Reply T' × Session T' π') : Prop :=
  ∃ later, met ≤ later ∧ comparison.Sessions mine later first.2 second.2 ∧
    ∀ addr, Renames later addr → second.1 = (comparison.relabelling addr).reply first.1

/-- No reply reports a fault, and no failure comes from a second parent that has run out. -/
structure FairReplies (before : Store T' π') (first : Reply T × Session T π)
    (second : Reply T' × Session T' π') : Prop where
  quiet : first.1.fault? = none
  quiet' : second.1.fault? = none
  unrefused : ¬ before.Refusing
  supplied : ∀ failure, second.1 = .failed failure → second.2.store.Refusing

variable {comparison} {mine : String → Prop} {met later : Nat → Nat → Prop}

theorem Contents.mono {register : Register T} {register' : Register T'}
    (contents : comparison.Contents met register register') (grown : met ≤ later) :
    comparison.Contents later register register' := by
  cases contents with
  | loose tails => exact .loose (tails.mono grown)
  | chain tails allowed => exact .chain (tails.mono grown) allowed

theorem Contents.nodes {register : Register T} {register' : Register T'}
    (contents : comparison.Contents met register register') :
    comparison.Tails met register.nodes register'.nodes := by
  cases contents with
  | loose tails => exact tails
  | chain tails _ => exact tails

theorem Contents.withNodes {register : Register T} {register' : Register T'}
    (contents : comparison.Contents met register register') {tail : Tail T} {tail' : Tail T'}
    (tails : comparison.Tails met tail tail') :
    comparison.Contents met (register.withNodes tail) (register'.withNodes tail') := by
  cases contents with
  | loose _ => exact .loose tails
  | chain _ allowed => exact .chain tails allowed

theorem Contents.register_eq {register : Register T} {register' : Register T'} {addr : Nat → Nat}
    (contents : comparison.Contents met register register') (renames : Renames met addr) :
    register' = (comparison.relabelling addr).register register := by
  cases contents with
  | loose tails => rw [Relabelling.register, ← tails.map_eq renames]
  | chain tails _ =>
    rw [Relabelling.register, ← tails.map_eq renames]
    rfl

/-- Contents do not depend on when stores go together. -/
theorem Contents.congr {other : Comparison T T' π π'} (owner : other.owner = comparison.owner)
    (allowed : other.Allowed = comparison.Allowed) {register : Register T} {register' : Register T'}
    (contents : comparison.Contents met register register') :
    other.Contents met register register' := by
  have converted {tail : Tail T} {tail' : Tail T'} (tails : comparison.Tails met tail tail') :
      other.Tails met tail tail' :=
    tails.imp fun _ _ nodes =>
      ⟨nodes.addr, nodes.value, owner ▸ nodes.owner, allowed ▸ nodes.allowed⟩
  cases contents with
  | loose tails => exact .loose (converted tails)
  | chain tails here =>
    rw [← owner]
    exact .chain (converted tails) (allowed ▸ here)

namespace Directories

variable {registers : Registers T} {registers' : Registers T'}

theorem mono (directories : comparison.Directories mine met registers registers')
    (grown : met ≤ later) : comparison.Directories mine later registers registers' := by
  intro name named
  have here := directories name named
  generalize registers.get? name = found at here ⊢
  generalize registers'.get? name = found' at here ⊢
  cases here with
  | none => exact .none
  | some contents => exact .some (contents.mono grown)

theorem congr {other : Comparison T T' π π'} (owner : other.owner = comparison.owner)
    (allowed : other.Allowed = comparison.Allowed)
    (directories : comparison.Directories mine met registers registers') :
    other.Directories mine met registers registers' := by
  intro name named
  have here := directories name named
  generalize registers.get? name = found at here ⊢
  generalize registers'.get? name = found' at here ⊢
  cases here with
  | none => exact .none
  | some contents => exact .some (contents.congr owner allowed)

theorem put (directories : comparison.Directories mine met registers registers') (name : String)
    {register : Register T} {register' : Register T'}
    (contents : comparison.Contents met register register') :
    comparison.Directories mine met (registers.put name register)
      (registers'.put name register') := by
  intro other named
  rw [Directory.get?_put, Directory.get?_put]
  split
  · exact .some contents
  · exact directories other named

theorem erase (directories : comparison.Directories mine met registers registers')
    (name : String) :
    comparison.Directories mine met (registers.erase name) (registers'.erase name) := by
  intro other named
  rw [Directory.get?_erase, Directory.get?_erase]
  split
  · exact .none
  · exact directories other named

theorem nodes (directories : comparison.Directories mine met registers registers') {name : String}
    (named : mine name) : comparison.Tails met (registers.nodes name) (registers'.nodes name) := by
  have here := directories name named
  rw [Registers.nodes, Registers.nodes]
  generalize registers.get? name = found at here ⊢
  generalize registers'.get? name = found' at here ⊢
  cases here with
  | none => exact .nil
  | some contents => exact contents.nodes

end Directories

section Moving

variable {session : Session T π} {session' : Session T' π'} {tail : Tail T} {tail' : Tail T'}
  {name : String}

namespace Sessions

theorem nodes (sessions : comparison.Sessions mine met session session') (named : mine name) :
    comparison.Tails met (session.nodes name) (session'.nodes name) :=
  sessions.directories.nodes named

theorem withRegisters (sessions : comparison.Sessions mine met session session')
    {registers : Registers T} {registers' : Registers T'}
    (directories : comparison.Directories mine met registers registers') :
    comparison.Sessions mine met { session with registers }
      { session' with registers := registers' } :=
  ⟨sessions.stores, directories⟩

theorem take (sessions : comparison.Sessions mine met session session') (named : mine name) :
    comparison.Tails met (session.take name).1 (session'.take name).1 ∧
      comparison.Sessions mine met (session.take name).2 (session'.take name).2 :=
  ⟨sessions.nodes named, sessions.withRegisters (sessions.directories.erase name)⟩

theorem take? (sessions : comparison.Sessions mine met session session')
    {source : Option String} (named : ∀ name ∈ source.toList, mine name) :
    comparison.Tails met (session.take? source).1 (session'.take? source).1 ∧
      comparison.Sessions mine met (session.take? source).2 (session'.take? source).2 := by
  cases source with
  | none => exact ⟨.nil, sessions⟩
  | some name => exact sessions.take (named name (.head _))

theorem setNodes (sessions : comparison.Sessions mine met session session') (named : mine name)
    (tails : comparison.Tails met tail tail') :
    comparison.Sessions mine met (session.setNodes name tail) (session'.setNodes name tail') := by
  refine sessions.withRegisters (sessions.directories.put name ?_)
  have here := sessions.directories name named
  generalize session.registers.get? name = found at here ⊢
  generalize session'.registers.get? name = found' at here ⊢
  cases here with
  | none => exact .loose tails
  | some contents => exact contents.withNodes tails

variable [Parent π] [Parent π']

theorem discard (sessions : comparison.Sessions mine met session session')
    (preserved : comparison.Preserved) (tails : comparison.Tails met tail tail')
    (quiet : (session.discard tail).1 = none) (quiet' : (session'.discard tail').1 = none) :
    comparison.Sessions mine met (session.discard tail).2 (session'.discard tail').2 :=
  ⟨preserved.discard tails sessions.stores quiet quiet', sessions.directories⟩

theorem put (sessions : comparison.Sessions mine met session session')
    (preserved : comparison.Preserved) (named : mine name) {register : Register T}
    {register' : Register T'} (contents : comparison.Contents met register register')
    (quiet : (session.put name register).1 = none)
    (quiet' : (session'.put name register').1 = none) :
    comparison.Sessions mine met (session.put name register).2 (session'.put name register').2 :=
  (sessions.withRegisters (sessions.directories.put name contents)).discard preserved
    (sessions.nodes named) quiet quiet'

theorem dispose (sessions : comparison.Sessions mine met session session')
    (preserved : comparison.Preserved) {target : Option String}
    (named : ∀ name ∈ target.toList, mine name)
    (tails : comparison.Tails met tail tail') (quiet : (session.dispose target tail).1 = none)
    (quiet' : (session'.dispose target tail').1 = none) :
    comparison.Sessions mine met (session.dispose target tail).2
      (session'.dispose target tail').2 := by
  cases target with
  | none => exact sessions.discard preserved tails quiet quiet'
  | some name => exact sessions.put preserved (named name (.head _)) (.loose tails) quiet quiet'

abbrev Aside (comparison : Comparison T T' π π') (mine : String → Prop) (met : Nat → Nat → Prop) :
    List (String × Tail T) → List (String × Tail T') → Prop :=
  List.Forall₂ fun entry entry' =>
    mine entry.1 ∧ entry'.1 = entry.1 ∧ comparison.Tails met entry.2 entry'.2

theorem putAll (sessions : comparison.Sessions mine met session session')
    (preserved : comparison.Preserved) {aside : List (String × Tail T)}
    {aside' : List (String × Tail T')} (alike : Aside comparison mine met aside aside')
    (quiet : (Session.putAll aside session).1 = none)
    (quiet' : (Session.putAll aside' session').1 = none) :
    comparison.Sessions mine met (Session.putAll aside session).2
      (Session.putAll aside' session').2 := by
  induction alike generalizing session session' with
  | nil => exact sessions
  | @cons entry entry' _ _ here _ ih =>
    obtain ⟨name, tail⟩ := entry
    obtain ⟨name', tail'⟩ := entry'
    obtain ⟨named, rfl, tails⟩ := here
    simp only [Session.putAll, Option.or_eq_none_iff] at quiet quiet' ⊢
    exact ih (sessions.put preserved named (.loose tails) quiet.1 quiet'.1) quiet.2 quiet'.2

end Sessions

section Concluding

theorem agrees_conclude {before : Store T' π'} {reply : Reply T} {reply' : Reply T'}
    {result : Option Fault × Session T π} {result' : Option Fault × Session T' π'}
    (stands : reply.Stands) (stands' : reply'.Stands)
    (fair : FairReplies before (Session.conclude reply result) (Session.conclude reply' result'))
    (replies : ∀ addr, Renames met addr → reply' = (comparison.relabelling addr).reply reply)
    (sessions : result.1 = none → result'.1 = none →
      comparison.Sessions mine met result.2 result'.2) :
    comparison.Agrees mine met (Session.conclude reply result)
      (Session.conclude reply' result') := by
  obtain ⟨quiet, same⟩ := Session.conclude_of_quiet stands fair.quiet
  obtain ⟨quiet', same'⟩ := Session.conclude_of_quiet stands' fair.quiet'
  rw [same, same']
  exact ⟨met, le_refl _, sessions quiet quiet', replies⟩

theorem agrees_same (sessions : comparison.Sessions mine met session session') {reply : Reply T}
    {reply' : Reply T'}
    (replies : ∀ addr, Renames met addr → reply' = (comparison.relabelling addr).reply reply) :
    comparison.Agrees mine met (reply, session) (reply', session') :=
  ⟨met, le_refl _, sessions, replies⟩

theorem Agrees.of_grown {first : Reply T × Session T π} {second : Reply T' × Session T' π'}
    (agrees : comparison.Agrees mine later first second) (grown : met ≤ later) :
    comparison.Agrees mine met first second := by
  obtain ⟨last, more, sessions, replies⟩ := agrees
  exact ⟨last, grown.trans more, sessions, replies⟩

theorem FairReplies.fair {before : Store T' π'} {first : Reply T × Session T π}
    {second : Reply T' × Session T' π'} (fair : FairReplies before first second) {α β : Type}
    (part : Except Failure α × Store T π) (part' : Except Failure β × Store T' π')
    (failed : ∀ failure, part.1 = .error failure → first.1 = .failed failure)
    (failed' : ∀ failure, part'.1 = .error failure →
      second.1 = .failed failure ∧ second.2.store = part'.2) : Fair before part part' where
  quiet fault same := by
    have quiet := fair.quiet
    rw [failed _ same] at quiet
    cases quiet
  quiet' fault same := by
    have quiet := fair.quiet'
    rw [(failed' _ same).1] at quiet
    cases quiet
  unrefused := fair.unrefused
  supplied failure same := (failed' _ same).2 ▸ fair.supplied failure (failed' _ same).1

theorem Tails.answer (tails : comparison.Tails met tail tail') (addr : Nat → Nat) :
    Reply.answer (.ofTail tail') =
      (comparison.relabelling addr).reply (.answer (.ofTail tail)) := by
  have values := tails.values
  cases tails with
  | nil => rfl
  | cons nodes rest => exact congrArg (fun held => Reply.answer (.values held)) values

theorem Tails.cutAfter? (tails : comparison.Tails met tail tail') (position : Nat) :
    Option.Rel (fun cut cut' => comparison.Tails met cut.1 cut'.1 ∧
      comparison.Tails met cut.2 cut'.2) (Tail.cutAfter? position tail)
      (Tail.cutAfter? position tail') := by
  simp only [Tail.cutAfter?, tails.length_eq]
  split
  · exact .some ⟨List.forall₂_take _ tails, List.forall₂_drop _ tails⟩
  · exact .none

end Concluding

end Moving

section Reading

variable {tail : Tail T} {tail' : Tail T'} {session : Session T π} {session' : Session T' π'}
  {name : String}

theorem Tails.getElem? (tails : comparison.Tails met tail tail') (position : Nat) :
    Option.Rel (comparison.Nodes met) tail[position]? tail'[position]? := by
  induction tails generalizing position with
  | nil => exact .none
  | cons nodes _ ih =>
    cases position with
    | zero => exact .some nodes
    | succ position => exact ih position

theorem Tails.render (tails : comparison.Tails met tail tail') (style : Style) :
    Tail.render style tail' = Tail.render style tail := by
  cases tails with
  | nil => rfl
  | cons nodes _ =>
    simp only [Tail.render, List.head?_cons, Option.map_some, Node.block, nodes.value]

/-- Reading values asks for nothing but values. -/
theorem read_map (relabelling : Relabelling T T') (steps : List StreamStep) (stream : ValueStream) :
    (stream.read steps).map relabelling.answer = stream.read steps := by
  induction steps generalizing stream with
  | nil => rfl
  | cons step steps ih =>
    cases step with
    | count => rfl
    | last => simp only [ValueStream.read, List.map_cons, List.map_nil, Relabelling.answer_ofValue?]
    | next => simp only [ValueStream.read, List.map_cons, ih, Relabelling.answer_ofValue?]
    | skip count => simp only [ValueStream.read, List.map_cons, ih, Relabelling.answer_ofValue?]
    | _ =>
      simp only [ValueStream.read, List.map_cons, ih]
      rfl

structure Cursors (comparison : Comparison T T' π π') (met : Nat → Nat → Prop) (cursor : Cursor T)
    (cursor' : Cursor T') : Prop where
  node : comparison.Nodes met cursor.node cursor'.node
  rest : comparison.Tails met cursor.rest cursor'.rest

theorem Cursors.nodes {cursor : Cursor T} {cursor' : Cursor T'}
    (cursors : Cursors comparison met cursor cursor') :
    comparison.Tails met cursor.nodes cursor'.nodes :=
  .cons cursors.node cursors.rest

theorem Cursors.ofTail? (tails : comparison.Tails met tail tail') :
    Option.Rel (Cursors comparison met) (Cursor.ofTail? tail) (Cursor.ofTail? tail') := by
  cases tails with
  | nil => exact .none
  | cons nodes rest => exact .some ⟨nodes, rest⟩

theorem map_cons_map (relabelling : Relabelling T T') (outcome : Except Problem (List (Answer T)))
    {answer : Answer T} {answer' : Answer T'} (same : answer' = relabelling.answer answer) :
    (outcome.map (List.map relabelling.answer)).map (answer' :: ·) =
      (outcome.map (answer :: ·)).map (List.map relabelling.answer) := by
  rw [same]
  cases outcome <;> rfl

theorem Cursors.look {saved cursor : Cursor T} {saved' cursor' : Cursor T'}
    (saves : Cursors comparison met saved saved') (cursors : Cursors comparison met cursor cursor')
    (relabelling : Relabelling T T') (steps : List CursorStep) :
    Cursor.look saved' cursor' steps =
      (Cursor.look saved cursor steps).map (List.map relabelling.answer) := by
  induction steps generalizing saved cursor saved' cursor' with
  | nil => rfl
  | cons step steps ih =>
    have here := ih saves cursors
    cases step with
    | value =>
      rw [Cursor.look, Cursor.look, here, Cursor.value, cursors.node.value]
      exact map_cons_map relabelling _ rfl
    | terminal =>
      rw [Cursor.look, Cursor.look, here, Cursor.isTerminal, Tails.isEmpty cursors.rest]
      exact map_cons_map relabelling _ rfl
    | next =>
      rw [Cursor.look, Cursor.look, here, Tails.head_value cursors.rest]
      exact map_cons_map relabelling _ (relabelling.answer_ofValue? _).symm
    | values =>
      rw [Cursor.look, Cursor.look, here, Tails.values cursors.nodes]
      exact map_cons_map relabelling _ rfl
    | advance =>
      have moved := Cursors.ofTail? cursors.rest
      simp only [Cursor.look, Cursor.advance?]
      generalize Cursor.ofTail? cursor.rest = found at moved ⊢
      generalize Cursor.ofTail? cursor'.rest = found' at moved ⊢
      cases moved with
      | none =>
        simp only [here]
        exact map_cons_map relabelling _ rfl
      | some moved =>
        simp only [ih saves moved]
        exact map_cons_map relabelling _ rfl
    | save =>
      rw [Cursor.look, Cursor.look, ih cursors cursors]
      exact map_cons_map relabelling _ rfl
    | restore =>
      rw [Cursor.look, Cursor.look, ih saves saves]
      exact map_cons_map relabelling _ rfl
    | same =>
      rw [Cursor.look, Cursor.look, here, Cursor.isAt, saves.rest.length_eq.symm,
        cursors.rest.length_eq.symm]
      exact map_cons_map relabelling _ rfl
    | render style =>
      cases style with
      | none => rfl
      | some style =>
        rw [Cursor.look, Cursor.look, here, Cursor.render, Cursor.value, cursors.node.value]
        exact map_cons_map relabelling _ rfl
    | unrecognised =>
      rw [Cursor.look, Cursor.look, here]
      exact map_cons_map relabelling _ rfl

namespace Sessions

theorem inspect (sessions : comparison.Sessions mine met session session') (named : mine name)
    (position : Nat) (addr : Nat → Nat) (renames : Renames met addr) :
    session'.inspect name position =
      (comparison.relabelling addr).reply (session.inspect name position) := by
  have rest := List.forall₂_drop position (sessions.nodes named)
  simp only [Session.inspect]
  generalize (session.nodes name).drop position = tail at rest ⊢
  generalize (session'.nodes name).drop position = tail' at rest ⊢
  cases rest with
  | nil => rfl
  | cons nodes rest =>
    simp only [NodeReport.ofNode, Relabelling.reply, Relabelling.answer, relabelling,
      renames _ _ nodes.addr, nodes.value, nodes.owner, Tails.head_value rest]

theorem info (sessions : comparison.Sessions mine met session session') (named : mine name)
    (addr : Nat → Nat) :
    session'.info name = (comparison.relabelling addr).reply (session.info name) := by
  have here := sessions.directories name named
  simp only [Session.info]
  generalize session.registers.get? name = found at here ⊢
  generalize session'.registers.get? name = found' at here ⊢
  rcases here with contents | _
  · rcases contents with _ | ⟨tails, _⟩
    · rfl
    · simp only [ChainReport.ofChain, Chain.head?, Chain.digest, Chain.values, Chain.isEmpty,
        Chain.length, Tails.values tails, Tails.head_value tails, Tails.isEmpty tails,
        tails.length_eq, Relabelling.reply, Relabelling.chainReport, relabelling]
  · rfl

theorem render (sessions : comparison.Sessions mine met session session') (named : mine name)
    (position : Option Nat) (style : Option Style) (addr : Nat → Nat) :
    session'.render name position style =
      (comparison.relabelling addr).reply (session.render name position style) := by
  have tails := sessions.nodes named
  cases position with
  | some position =>
    have here := tails.getElem? position
    simp only [Session.render]
    generalize (session.nodes name)[position]? = found at here ⊢
    generalize (session'.nodes name)[position]? = found' at here ⊢
    cases here with
    | none => rfl
    | some nodes => cases style <;>
        simp only [Option.map_some, Node.render, Node.block, nodes.value] <;> rfl
  | none =>
    have here := sessions.directories name named
    have shown := Tails.render tails
    simp only [Session.render]
    generalize session.registers.get? name = found at here ⊢
    generalize session'.registers.get? name = found' at here ⊢
    rcases here with contents | _
    · rcases contents with _ | ⟨tails, _⟩
      · cases style <;> simp only [shown] <;> rfl
      · cases style <;> simp only [Chain.render, Chain.values, Tails.values tails] <;> rfl
    · cases style <;> simp only [shown] <;> rfl

theorem isFrontOfChain (sessions : comparison.Sessions mine met session session')
    (named : mine name) (position : Nat) :
    session'.isFrontOfChain name position = session.isFrontOfChain name position := by
  have here := sessions.directories name named
  simp only [Session.isFrontOfChain]
  generalize session.registers.get? name = found at here ⊢
  generalize session'.registers.get? name = found' at here ⊢
  rcases here with contents | _
  · cases contents <;> cases position <;> rfl
  · cases position <;> rfl

theorem stream (sessions : comparison.Sessions mine met session session') (named : mine name)
    (position : Nat) (steps : Option (List StreamStep)) (addr : Nat → Nat) :
    session'.stream name position steps =
      (comparison.relabelling addr).reply (session.stream name position steps) := by
  have rest := List.forall₂_drop position (sessions.nodes named)
  simp only [Session.stream, sessions.isFrontOfChain named, Tails.isEmpty rest]
  split
  · rfl
  · cases steps with
    | none => rfl
    | some steps =>
      simp only [ValueStream.ofTail, Tails.values rest, Relabelling.reply, read_map]

theorem cursor (sessions : comparison.Sessions mine met session session') (named : mine name)
    (position : Nat) (steps : Option (List CursorStep)) (addr : Nat → Nat) :
    session'.cursor name position steps =
      (comparison.relabelling addr).reply (session.cursor name position steps) := by
  have here := Cursors.ofTail? (List.forall₂_drop position (sessions.nodes named))
  simp only [Session.cursor, sessions.isFrontOfChain named]
  generalize Cursor.ofTail? ((session.nodes name).drop position) = found at here ⊢
  generalize Cursor.ofTail? ((session'.nodes name).drop position) = found' at here ⊢
  cases here with
  | none => cases session.isFrontOfChain name position <;> rfl
  | some cursors =>
    cases steps with
    | none => rfl
    | some steps =>
      simp only [cursors.look cursors (comparison.relabelling addr) steps]
      cases Cursor.look _ _ steps <;> rfl

end Sessions

end Reading

end Comparison

end ChainLedger
