import ChainLedger.Proofs.Resemblance

set_option autoImplicit false

namespace ChainLedger

namespace Comparison

variable {T T' : Layering} {π π' : Type} {comparison : Comparison T T' π π'}
  {mine : String → Prop} {met later : Nat → Nat → Prop}

namespace Preserved

variable [Parent π] [Parent π'] {session : Session T π} {session' : Session T' π'} {name : String}

theorem unlink (preserved : comparison.Preserved)
    (sessions : comparison.Sessions mine met session session') (position : Nat)
    {target : Option String} (named : mine name) (targets : ∀ name ∈ target.toList, mine name)
    (fair : FairReplies session'.store (session.unlink name position target)
      (session'.unlink name position target)) :
    comparison.Agrees mine met (session.unlink name position target)
      (session'.unlink name position target) := by
  have cuts := (sessions.nodes named).cutAfter? position
  simp only [Session.unlink] at fair ⊢
  generalize Tail.cutAfter? position (session.nodes name) = cut at cuts fair ⊢
  generalize Tail.cutAfter? position (session'.nodes name) = cut' at cuts fair ⊢
  cases cuts with
  | none => exact agrees_same sessions fun _ _ => rfl
  | some tails =>
    exact agrees_conclude (.answer _) (.answer _) fair (fun addr _ => tails.2.answer addr)
      ((sessions.setNodes named tails.1).dispose preserved targets tails.2)

theorem link (preserved : comparison.Preserved)
    (sessions : comparison.Sessions mine met session session') (position : Nat)
    {source target : Option String} (named : mine name)
    (sources : ∀ name ∈ source.toList, mine name) (targets : ∀ name ∈ target.toList, mine name)
    (fair : FairReplies session'.store (session.link name position source target)
      (session'.link name position source target)) :
    comparison.Agrees mine met (session.link name position source target)
      (session'.link name position source target) := by
  have cuts := (sessions.nodes named).cutAfter? position
  simp only [Session.link] at fair ⊢
  split at fair
  · next same => simp only [same, ↓reduceIte]; exact agrees_same sessions fun _ _ => rfl
  · next apart =>
    simp only [apart, ↓reduceIte] at fair ⊢
    generalize Tail.cutAfter? position (session.nodes name) = cut at cuts fair ⊢
    generalize Tail.cutAfter? position (session'.nodes name) = cut' at cuts fair ⊢
    cases cuts with
    | none => exact agrees_same sessions fun _ _ => rfl
    | some tails =>
      obtain ⟨taken, away⟩ := sessions.take? sources
      exact agrees_conclude (.answer _) (.answer _) fair (fun addr _ => tails.2.answer addr)
        ((away.setNodes named (List.rel_append tails.1 taken)).dispose preserved targets tails.2)

theorem move (preserved : comparison.Preserved)
    (sessions : comparison.Sessions mine met session session') {target : Option String}
    (named : mine name) (targets : ∀ name ∈ target.toList, mine name)
    (fair : FairReplies session'.store (session.move name target) (session'.move name target)) :
    comparison.Agrees mine met (session.move name target) (session'.move name target) := by
  obtain ⟨tails, away⟩ := sessions.take named
  cases target with
  | none =>
    exact agrees_conclude (.problem _) (.problem _) fair (fun _ _ => rfl)
      (away.discard preserved tails)
  | some target =>
    exact agrees_conclude (.answer _) (.answer _) fair (fun addr _ => tails.answer addr)
      (away.put preserved (targets target (.head _)) (.loose tails))

theorem drop (preserved : comparison.Preserved)
    (sessions : comparison.Sessions mine met session session') (named : mine name)
    (fair : FairReplies session'.store (session.drop name) (session'.drop name)) :
    comparison.Agrees mine met (session.drop name) (session'.drop name) := by
  obtain ⟨tails, away⟩ := sessions.take named
  have existed : (session'.registers.get? name).isSome = (session.registers.get? name).isSome := by
    have here := sessions.directories name named
    generalize session.registers.get? name = found at here ⊢
    generalize session'.registers.get? name = found' at here ⊢
    cases here <;> rfl
  refine agrees_conclude (.answer _) (.answer _) fair (fun addr _ => ?_)
    (away.discard preserved tails)
  rw [existed]
  rfl

theorem empty (preserved : comparison.Preserved)
    (sessions : comparison.Sessions mine met session session') {owner : Handle T}
    (named : mine name) (allowed : comparison.Allowed owner)
    (fair : FairReplies session'.store (session.empty name owner)
      (session'.empty name (comparison.owner owner))) :
    comparison.Agrees mine met (session.empty name owner)
      (session'.empty name (comparison.owner owner)) :=
  agrees_conclude (.answer _) (.answer _) fair (fun _ _ => rfl)
    (sessions.put preserved named (.chain .nil allowed))

theorem intoHead (preserved : comparison.Preserved)
    (sessions : comparison.Sessions mine met session session') {target : Option String}
    (named : mine name) (targets : ∀ name ∈ target.toList, mine name)
    (fair : FairReplies session'.store (session.intoHead name target)
      (session'.intoHead name target)) :
    comparison.Agrees mine met (session.intoHead name target)
      (session'.intoHead name target) := by
  have here := sessions.directories name named
  simp only [Session.intoHead] at fair ⊢
  generalize session.registers.get? name = found at here fair ⊢
  generalize session'.registers.get? name = found' at here fair ⊢
  rcases here with contents | _
  · rcases contents with _ | _
    · exact agrees_same sessions fun _ _ => rfl
    · obtain ⟨tails, away⟩ := sessions.take named
      exact agrees_conclude (.answer _) (.answer _) fair (fun addr _ => tails.answer addr)
        (away.dispose preserved targets tails)
  · exact agrees_same sessions fun _ _ => rfl

theorem node (preserved : comparison.Preserved)
    (sessions : comparison.Sessions mine met session session') {owner : Handle T}
    (named : mine name) (allowed : comparison.Allowed owner) (demand : Demand) (value : Int64)
    (fair : FairReplies session'.store (session.node name demand owner value)
      (session'.node name demand (comparison.owner owner) value)) :
    comparison.Agrees mine met (session.node name demand owner value)
      (session'.node name demand (comparison.owner owner) value) := by
  have allocated := preserved.allocate_node sessions.stores allowed demand value
  simp only [Session.node] at fair ⊢
  generalize Node.allocate demand owner value session.store = first at allocated fair ⊢
  generalize Node.allocate demand (comparison.owner owner) value session'.store = second
    at allocated fair ⊢
  obtain ⟨result, after⟩ := first
  obtain ⟨result', after'⟩ := second
  have part := fair.fair (result, after) (result', after')
    (by rintro failure (rfl : result = _); rfl)
    (by rintro failure (rfl : result' = _); exact ⟨rfl, rfl⟩)
  obtain ⟨later, grown, results, stores⟩ := allocated part
  have sessions : comparison.Sessions mine later { session with store := after }
      { session' with store := after' } := ⟨stores, sessions.directories.mono grown⟩
  cases results with
  | ok nodes =>
    refine Agrees.of_grown ?_ grown
    exact agrees_conclude (.answer _) (.answer _) fair
      (fun _ _ => congrArg (fun held => Reply.answer (.value held)) nodes.value)
      (sessions.put preserved named (.loose (.cons nodes .nil)))
  | refused => exact ⟨later, grown, sessions, fun _ _ => rfl⟩
  | aborted => exact ⟨later, grown, sessions, fun _ _ => rfl⟩

theorem chain (preserved : comparison.Preserved)
    (sessions : comparison.Sessions mine met session session') {owner : Handle T}
    (named : mine name) (allowed : comparison.Allowed owner) (demand : Demand)
    (values : List Int64)
    (fair : FairReplies session'.store (session.chain name demand owner values)
      (session'.chain name demand (comparison.owner owner) values)) :
    comparison.Agrees mine met (session.chain name demand owner values)
      (session'.chain name demand (comparison.owner owner) values) := by
  have built := preserved.buildOnto sessions.stores allowed demand values.length values.reverse .nil
  simp only [Session.chain, Chain.build] at fair ⊢
  generalize Chain.buildOnto demand owner values.length values.reverse [] session.store = first
    at built fair ⊢
  generalize Chain.buildOnto demand (comparison.owner owner) values.length values.reverse []
    session'.store = second at built fair ⊢
  obtain ⟨result, after⟩ := first
  obtain ⟨result', after'⟩ := second
  have part := fair.fair (result, after) (result', after')
    (by rintro failure (rfl : result = _); rfl)
    (by rintro failure (rfl : result' = _); exact ⟨rfl, rfl⟩)
  obtain ⟨later, grown, results, stores⟩ := built part
  have sessions : comparison.Sessions mine later { session with store := after }
      { session' with store := after' } := ⟨stores, sessions.directories.mono grown⟩
  cases results with
  | ok tails =>
    refine Agrees.of_grown ?_ grown
    exact agrees_conclude (.answer _) (.answer _) fair
      (fun _ _ => congrArg (fun count => Reply.answer (.count count)) tails.length_eq.symm)
      (sessions.put preserved named (.chain tails allowed))
  | refused => exact ⟨later, grown, sessions, fun _ _ => rfl⟩
  | aborted => exact ⟨later, grown, sessions, fun _ _ => rfl⟩

theorem pushFront (preserved : comparison.Preserved)
    (sessions : comparison.Sessions mine met session session') (named : mine name)
    (demand : Demand) (value : Int64)
    (fair : FairReplies session'.store (session.pushFront name demand value)
      (session'.pushFront name demand value)) :
    comparison.Agrees mine met (session.pushFront name demand value)
      (session'.pushFront name demand value) := by
  have here := sessions.directories name named
  simp only [Session.pushFront, Chain.pushFront] at fair ⊢
  generalize session.registers.get? name = found at here fair ⊢
  generalize session'.registers.get? name = found' at here fair ⊢
  rcases here with contents | _
  · rcases contents with _ | @⟨tail, tail', owner, tails, allowed⟩
    · exact agrees_same sessions fun _ _ => rfl
    · have allocated := preserved.allocate_node sessions.stores allowed demand value
      simp only at fair ⊢
      generalize Node.allocate demand owner value session.store = first at allocated fair ⊢
      generalize Node.allocate demand (comparison.owner owner) value session'.store = second
        at allocated fair ⊢
      obtain ⟨result, after⟩ := first
      obtain ⟨result', after'⟩ := second
      have part := fair.fair (result, after) (result', after')
        (by rintro failure (rfl : result = _); rfl)
        (by rintro failure (rfl : result' = _); exact ⟨rfl, rfl⟩)
      obtain ⟨later, grown, results, stores⟩ := allocated part
      have directories := sessions.directories.mono grown
      have kept := tails.mono grown
      cases results with
      | ok nodes =>
        exact ⟨later, grown, ⟨stores, directories.put name (.chain (.cons nodes kept) allowed)⟩,
          fun _ _ => rfl⟩
      | refused =>
        exact ⟨later, grown, ⟨stores, directories.put name (.chain kept allowed)⟩, fun _ _ => rfl⟩
      | aborted =>
        exact ⟨later, grown, ⟨stores, directories.put name (.chain kept allowed)⟩, fun _ _ => rfl⟩
  · exact agrees_same sessions fun _ _ => rfl

theorem release (preserved : comparison.Preserved)
    (sessions : comparison.Sessions mine met session session') {target : Option String}
    (named : mine name) (targets : ∀ name ∈ target.toList, mine name)
    (fair : FairReplies session'.store (session.release name target)
      (session'.release name target)) :
    comparison.Agrees mine met (session.release name target) (session'.release name target) := by
  obtain ⟨tails, away⟩ := sessions.take named
  simp only [Session.release] at fair ⊢
  generalize session.take name = taken at tails away fair ⊢
  generalize session'.take name = taken' at tails away fair ⊢
  obtain ⟨tail, session⟩ := taken
  obtain ⟨tail', session'⟩ := taken'
  cases tails with
  | nil => exact agrees_same away fun _ _ => rfl
  | @cons node node' rest rest' nodes tails =>
    simp only at fair ⊢
    rcases released : Tail.releaseHead node rest session.store with ⟨fault | left, after⟩
    · simp only [released] at fair
      cases fair.quiet
    · rcases released' : Tail.releaseHead node' rest' session'.store with ⟨fault | left', after'⟩
      · simp only [released'] at fair
        cases fair.quiet'
      · obtain ⟨rfl, rfl, stores⟩ := preserved.released away.stores nodes released released'
        simp only [released, released'] at fair ⊢
        have away : comparison.Sessions mine met { session with store := after }
            { session' with store := after' } := ⟨stores, away.directories⟩
        exact agrees_conclude (.answer _) (.answer _) fair (fun addr _ => Tails.answer tails addr)
          (away.dispose preserved targets tails)

theorem popFront (preserved : comparison.Preserved)
    (sessions : comparison.Sessions mine met session session') (named : mine name)
    (fair : FairReplies session'.store (session.popFront name) (session'.popFront name)) :
    comparison.Agrees mine met (session.popFront name) (session'.popFront name) := by
  have here := sessions.directories name named
  simp only [Session.popFront, Chain.popFront] at fair ⊢
  generalize session.registers.get? name = found at here fair ⊢
  generalize session'.registers.get? name = found' at here fair ⊢
  rcases here with contents | _
  · rcases contents with _ | @⟨tail, tail', owner, tails, allowed⟩
    · exact agrees_same sessions fun _ _ => rfl
    · cases tails with
      | nil =>
        exact agrees_same (sessions.withRegisters
          (sessions.directories.put name (.chain .nil allowed))) fun _ _ => rfl
      | @cons node node' rest rest' nodes tails =>
        simp only at fair ⊢
        rcases released : Tail.releaseHead node rest session.store with ⟨fault | left, after⟩
        · simp only [released] at fair
          cases fair.quiet
        · rcases released' : Tail.releaseHead node' rest' session'.store with
            ⟨fault | left', after'⟩
          · simp only [released'] at fair
            cases fair.quiet'
          · obtain ⟨rfl, rfl, stores⟩ := preserved.released sessions.stores nodes released released'
            exact ⟨met, le_refl _,
              ⟨stores, sessions.directories.put name (.chain tails allowed)⟩,
              fun _ _ => congrArg (fun held => Reply.answer (.value held)) nodes.value⟩
  · exact agrees_same sessions fun _ _ => rfl

end Preserved

section Walking

structure Zippers (comparison : Comparison T T' π π') (met : Nat → Nat → Prop) (zipper : Zipper T)
    (zipper' : Zipper T') : Prop where
  passed : comparison.Tails met zipper.passed zipper'.passed
  focus : comparison.Nodes met zipper.focus zipper'.focus
  rest : comparison.Tails met zipper.rest zipper'.rest

theorem Zippers.nodes {zipper : Zipper T} {zipper' : Zipper T'}
    (zippers : Zippers comparison met zipper zipper') :
    comparison.Tails met zipper.nodes zipper'.nodes :=
  List.rel_append (List.rel_reverse zippers.passed) (.cons zippers.focus zippers.rest)

theorem Zippers.advance? {zipper : Zipper T} {zipper' : Zipper T'}
    (zippers : Zippers comparison met zipper zipper') :
    Option.Rel (Zippers comparison met) zipper.advance? zipper'.advance? := by
  obtain ⟨passed, focus, rest⟩ := zipper
  obtain ⟨passed', focus', rest'⟩ := zipper'
  obtain ⟨passes, focuses, rests⟩ := zippers
  cases rests with
  | nil => exact .none
  | cons nodes rests => exact .some ⟨.cons focuses passes, nodes, rests⟩

theorem Zippers.ofTail? {tail : Tail T} {tail' : Tail T'}
    (tails : comparison.Tails met tail tail') :
    Option.Rel (Zippers comparison met) (Zipper.ofTail? tail) (Zipper.ofTail? tail') := by
  cases tails with
  | nil => exact .none
  | cons nodes rest => exact .some ⟨.nil, nodes, rest⟩

structure WalkEnds (comparison : Comparison T T' π π') (mine : String → Prop)
    (met : Nat → Nat → Prop) (ended : WalkEnd T π) (ended' : WalkEnd T' π') : Prop where
  stands : ended.reply.Stands
  stands' : ended'.reply.Stands
  replies : ∀ addr, ended'.reply = (comparison.relabelling addr).reply ended.reply
  left : comparison.Tails met ended.left ended'.left
  aside : Sessions.Aside comparison mine met ended.aside ended'.aside
  sessions : comparison.Sessions mine met ended.session ended'.session

def Given (comparison : Comparison T T' π π') (answers : List (Answer T))
    (answers' : List (Answer T')) : Prop :=
  ∀ addr, answers' = answers.map (comparison.relabelling addr).answer

theorem Given.nil (comparison : Comparison T T' π π') : Given comparison [] [] :=
  fun _ => rfl

theorem Given.cons {answers : List (Answer T)} {answers' : List (Answer T')}
    (given : Given comparison answers answers') {answer : Answer T} {answer' : Answer T'}
    (same : ∀ addr, answer' = (comparison.relabelling addr).answer answer) :
    Given comparison (answer :: answers) (answer' :: answers') := fun addr => by
  rw [List.map_cons, ← same addr, ← given addr]

theorem Given.reply {answers : List (Answer T)} {answers' : List (Answer T')}
    (given : Given comparison answers answers') (addr : Nat → Nat) :
    Reply.answers answers'.reverse =
      (comparison.relabelling addr).reply (.answers answers.reverse) := by
  rw [given addr, Relabelling.reply, List.map_reverse]

/-- Wherever two walks take these steps from the same place, they end alike. -/
def Walked (comparison : Comparison T T' π π') (mine : String → Prop) (met : Nat → Nat → Prop)
    [Parent π] [Parent π'] (steps : List WalkStep) : Prop :=
  ∀ ⦃answers answers' aside aside'⦄ ⦃zipper : Zipper T⦄ ⦃zipper' : Zipper T'⦄
    ⦃session : Session T π⦄ ⦃session' : Session T' π'⦄, Given comparison answers answers' →
    Sessions.Aside comparison mine met aside aside' → Zippers comparison met zipper zipper' →
    comparison.Sessions mine met session session' →
    (zipper.walk answers aside session steps).reply.fault? = none →
    (zipper'.walk answers' aside' session' steps).reply.fault? = none →
    WalkEnds comparison mine met (zipper.walk answers aside session steps)
      (zipper'.walk answers' aside' session' steps)

variable [Parent π] [Parent π']

theorem Walked.link (preserved : comparison.Preserved) {steps : List WalkStep}
    (later : Walked comparison mine met steps) {source target : Option String}
    (sources : ∀ name ∈ source.toList, mine name) (targets : ∀ name ∈ target.toList, mine name) :
    Walked comparison mine met (.link source target :: steps) := by
  intro answers answers' aside aside' zipper zipper' session session' given asides zippers sessions
    quiet quiet'
  obtain ⟨taken, away⟩ := sessions.take? sources
  have answered : Given comparison (.ofTail zipper.rest :: answers)
      (.ofTail zipper'.rest :: answers') :=
    given.cons fun addr => Reply.answer.inj (Tails.answer zippers.rest addr)
  have linked : Zippers comparison met (zipper.link (session.take? source).1).2
      (zipper'.link (session'.take? source).1).2 := ⟨zippers.passed, zippers.focus, taken⟩
  simp only [Zipper.walk] at quiet quiet' ⊢
  cases target with
  | some name =>
    exact later answered (.cons ⟨targets name (.head _), rfl, zippers.rest⟩ asides) linked away
      quiet quiet'
  | none =>
    have discarded := away.discard preserved zippers.rest
    simp only [Zipper.link] at discarded quiet quiet' linked ⊢
    generalize (session.take? source).2.discard zipper.rest = result at discarded quiet ⊢
    generalize (session'.take? source).2.discard zipper'.rest = result' at discarded quiet' ⊢
    obtain ⟨_ | fault, session⟩ := result
    · obtain ⟨_ | fault, session'⟩ := result'
      · exact later answered asides linked (discarded rfl rfl) quiet quiet'
      · cases quiet'
    · cases quiet

theorem Walked.steps (preserved : comparison.Preserved) (steps : List WalkStep)
    (named : ∀ step ∈ steps, ∀ name ∈ step.names, mine name) :
    Walked comparison mine met steps := by
  induction steps with
  | nil =>
    intro answers answers' aside aside' zipper zipper' session session' given asides zippers
      sessions quiet quiet'
    exact ⟨.answers _, .answers _, given.reply, zippers.nodes, List.rel_reverse asides, sessions⟩
  | cons step steps ih =>
    obtain ⟨here, named⟩ := List.forall_mem_cons.1 named
    have later : Walked comparison mine met steps := ih named
    cases step with
    | splitOff target =>
      -- Splitting off is linking nothing behind the node.
      have linked : Walked comparison mine met (.link none target :: steps) :=
        Walked.link preserved later (List.forall_mem_nil _) here
      intro answers answers' aside aside' zipper zipper' session session' given asides zippers
        sessions
      rw [Zipper.walk_splitOff, Zipper.walk_splitOff]
      exact linked given asides zippers sessions
    | link source target =>
      exact Walked.link preserved later
        (fun name held => here name (List.mem_append_left _ held))
        (fun name held => here name (List.mem_append_right _ held))
    | release =>
      intro answers answers' aside aside' zipper zipper' session session' given asides zippers
        sessions quiet quiet'
      simp only [Zipper.walk, Zipper.release] at quiet quiet' ⊢
      rcases released : Tail.releaseHead zipper.focus zipper.rest session.store with
        ⟨fault | left, after⟩
      · rw [released] at quiet
        cases quiet
      · rcases released' : Tail.releaseHead zipper'.focus zipper'.rest session'.store with
          ⟨fault | left', after'⟩
        · rw [released'] at quiet'
          cases quiet'
        · obtain ⟨rfl, rfl, stores⟩ :=
            preserved.released sessions.stores zippers.focus released released'
          have answered : Given comparison (.value zipper.value :: answers)
              (.value zipper'.value :: answers') :=
            given.cons fun _ => congrArg Answer.value zippers.focus.value
          exact ⟨.answers _, .answers _, answered.reply,
            List.rel_append (List.rel_reverse zippers.passed) zippers.rest,
            List.rel_reverse asides, stores, sessions.directories⟩
    | advance =>
      intro answers answers' aside aside' zipper zipper' session session' given asides zippers
        sessions quiet quiet'
      have moved := zippers.advance?
      simp only [Zipper.walk] at quiet quiet' ⊢
      generalize zipper.advance? = found at moved quiet ⊢
      generalize zipper'.advance? = found' at moved quiet' ⊢
      cases moved with
      | none =>
        have answered : Given comparison (.nothing :: answers) (.nothing :: answers') :=
          given.cons fun _ => rfl
        exact ⟨.answers _, .answers _, answered.reply, zippers.nodes, List.rel_reverse asides,
          sessions⟩
      | some moved =>
        exact later (given.cons fun _ => rfl) asides moved sessions quiet quiet'
    | render style =>
      intro answers answers' aside aside' zipper zipper' session session' given asides zippers
        sessions quiet quiet'
      cases style with
      | none =>
        exact ⟨.problem _, .problem _, fun _ => rfl, zippers.nodes, List.rel_reverse asides,
          sessions⟩
      | some style =>
        refine later (given.cons fun _ => ?_) asides zippers sessions quiet quiet'
        simp only [Zipper.render, Zipper.value, zippers.focus.value, Relabelling.answer]
    | value =>
      intro answers answers' aside aside' zipper zipper' session session' given asides zippers
        sessions quiet quiet'
      exact later (given.cons fun _ => congrArg Answer.value zippers.focus.value) asides zippers
        sessions quiet quiet'
    | terminal =>
      intro answers answers' aside aside' zipper zipper' session session' given asides zippers
        sessions quiet quiet'
      exact later (given.cons fun _ => congrArg Answer.truth (Tails.isEmpty zippers.rest)) asides
        zippers sessions quiet quiet'
    | valueAndNext =>
      intro answers answers' aside aside' zipper zipper' session session' given asides zippers
        sessions quiet quiet'
      exact later (given.cons fun _ => congrArg₂ Answer.valueAndNext zippers.focus.value
        (Tails.head_value zippers.rest)) asides zippers sessions quiet quiet'
    | next =>
      intro answers answers' aside aside' zipper zipper' session session' given asides zippers
        sessions quiet quiet'
      refine later (given.cons fun addr => ?_) asides zippers sessions quiet quiet'
      rw [Relabelling.answer_ofValue?, Tails.head_value zippers.rest]
    | owner =>
      intro answers answers' aside aside' zipper zipper' session session' given asides zippers
        sessions quiet quiet'
      exact later (given.cons fun _ => congrArg Answer.owner zippers.focus.owner) asides zippers
        sessions quiet quiet'
    | unrecognised =>
      intro answers answers' aside aside' zipper zipper' session session' given asides zippers
        sessions quiet quiet'
      exact later (given.cons fun _ => rfl) asides zippers sessions quiet quiet'

namespace Preserved

variable {session : Session T π} {session' : Session T' π'} {name : String}

theorem walk (preserved : comparison.Preserved)
    (sessions : comparison.Sessions mine met session session') (named : mine name)
    (steps : List WalkStep) (others : ∀ step ∈ steps, ∀ name ∈ step.names, mine name)
    (fair : FairReplies session'.store (session.walk name steps) (session'.walk name steps)) :
    comparison.Agrees mine met (session.walk name steps) (session'.walk name steps) := by
  have here := sessions.directories name named
  simp only [Session.walk] at fair ⊢
  generalize session.registers.get? name = found at here fair ⊢
  generalize session'.registers.get? name = found' at here fair ⊢
  rcases here with @⟨register, register', contents⟩ | _
  · have bound := Zippers.ofTail? contents.nodes
    simp only at fair ⊢
    generalize Zipper.ofTail? register.nodes = zipper at bound fair ⊢
    generalize Zipper.ofTail? register'.nodes = zipper' at bound fair ⊢
    cases bound with
    | none => exact agrees_same sessions fun _ _ => rfl
    | @some zipper zipper' zippers =>
      have ends := Walked.steps preserved steps others (.nil comparison) .nil zippers
        (sessions.withRegisters (sessions.directories.erase name))
      simp only at fair ⊢
      generalize zipper.walk [] [] { session with registers := session.registers.erase name } steps
        = ended at ends fair ⊢
      generalize zipper'.walk [] []
        { session' with registers := session'.registers.erase name } steps = ended' at ends fair ⊢
      obtain ⟨stands, stands', replies, left, alike, walked⟩ :=
        ends (Session.fault?_of_conclude fair.quiet) (Session.fault?_of_conclude fair.quiet')
      have back := walked.withRegisters (walked.directories.put name (contents.withNodes left))
      exact agrees_conclude stands stands' fair (fun addr _ => replies addr)
        (back.putAll preserved alike)
  · exact agrees_same sessions fun _ _ => rfl

/-- Every list operation on the names of the party keeps the sessions together. -/
theorem perform (preserved : comparison.Preserved)
    (sessions : comparison.Sessions mine met session session') {op : Op T π} {op' : Op T' π'}
    (meant : op.recast comparison.owner = .ok op') (named : ∀ name ∈ op.names, mine name)
    (allowed : ∀ owner ∈ op.owners, comparison.Allowed owner)
    (fair : FairReplies session'.store (session.perform op) (session'.perform op')) :
    comparison.Agrees mine met (session.perform op) (session'.perform op') := by
  cases op with
  | node target demand owner value =>
    cases meant
    exact preserved.node sessions (named _ (.head _)) (allowed _ (.head _)) demand value fair
  | chain target demand owner values =>
    cases meant
    exact preserved.chain sessions (named _ (.head _)) (allowed _ (.head _)) demand values fair
  | empty target owner =>
    cases meant
    exact preserved.empty sessions (named _ (.head _)) (allowed _ (.head _)) fair
  | inspect name position =>
    cases meant
    exact agrees_same sessions (sessions.inspect (named _ (.head _)) position)
  | link name position source target =>
    cases meant
    obtain ⟨named, others⟩ := List.forall_mem_cons.1 named
    obtain ⟨sources, targets⟩ := List.forall_mem_append.1 others
    exact preserved.link sessions position named sources targets fair
  | unlink name position target =>
    cases meant
    obtain ⟨named, targets⟩ := List.forall_mem_cons.1 named
    exact preserved.unlink sessions position named targets fair
  | release name target =>
    cases meant
    obtain ⟨named, targets⟩ := List.forall_mem_cons.1 named
    exact preserved.release sessions named targets fair
  | move name target =>
    cases meant
    obtain ⟨named, targets⟩ := List.forall_mem_cons.1 named
    exact preserved.move sessions named targets fair
  | drop name =>
    cases meant
    exact preserved.drop sessions (named _ (.head _)) fair
  | intoHead name target =>
    cases meant
    obtain ⟨named, targets⟩ := List.forall_mem_cons.1 named
    exact preserved.intoHead sessions named targets fair
  | pushFront name demand value =>
    cases meant
    exact preserved.pushFront sessions (named _ (.head _)) demand value fair
  | popFront name =>
    cases meant
    exact preserved.popFront sessions (named _ (.head _)) fair
  | info name =>
    cases meant
    exact agrees_same sessions fun addr _ => sessions.info (named _ (.head _)) addr
  | values name =>
    cases meant
    exact agrees_same sessions fun _ _ =>
      congrArg (fun held => Reply.answer (.values held))
        (Tails.values (sessions.nodes (named _ (.head _))))
  | render name position style =>
    cases meant
    exact agrees_same sessions fun addr _ =>
      sessions.render (named _ (.head _)) position style addr
  | stream name position steps =>
    cases meant
    exact agrees_same sessions fun addr _ =>
      sessions.stream (named _ (.head _)) position steps addr
  | cursor name position steps =>
    cases meant
    exact agrees_same sessions fun addr _ =>
      sessions.cursor (named _ (.head _)) position steps addr
  | walk name steps =>
    cases meant
    obtain ⟨named, others⟩ := List.forall_mem_cons.1 named
    exact preserved.walk sessions named steps
      (fun step taken name held => others name (List.mem_flatMap_of_mem taken held)) fair
  | _ => cases meant

end Preserved

end Walking

end Comparison

end ChainLedger
