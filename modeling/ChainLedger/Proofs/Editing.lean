import ChainLedger.Proofs.Disposal

set_option autoImplicit false

namespace ChainLedger

variable {T : Layering} {π : Type}

inductive EditStep where
  /-- Reads the editor's node: its value, and whether it is the last one. -/
  | look
  | advance
  /-- Puts the list at a place of the hand behind the editor's node and takes what stood there into
  the hand. Without a list to put there the node becomes the last one. -/
  | link (choice : Option Nat)
  /-- Releases the editor's node and with it the editor. -/
  | release

/-- An edit that is under way, and what has come of it so far. -/
structure Edit (T : Layering) (π : Type) where
  editor : Editor
  depot : Depot T π
  /-- The links to the lists that are owned apart from the one that is edited. -/
  hand : List (Option Nat)
  /-- The nodes gone through, front to back, each as it was when the editor left it. -/
  passed : Tail T
  /-- All nodes that have been linked in. -/
  linked : Tail T
  /-- All nodes that have been handed back. -/
  handed : Tail T

/-- How an edit goes on after a step, or ends with it. -/
inductive Course (T : Layering) (π : Type) where
  | going (edit : Edit T π)
  /-- The editor was to move on from the last node, and is gone. -/
  | past (edit : Edit T π)
  /-- The editor's node was released. `left` is the link to the list afterwards. -/
  | released (edit : Edit T π) (outcome : Except Fault Int64) (left : Option Nat)
      (depot : Depot T π)

def Editor.node (memory : Memory T) (editor : Editor) : Except Hazard (Node T) := do
  let addr ← editor.addr memory
  let record ← memory.read addr
  return record.node addr

namespace Edit

/-- Takes a list out of the hand, if there is one at the place chosen. -/
def take (edit : Edit T π) : Option Nat → Option Nat × List (Option Nat)
  | none => (none, edit.hand)
  | some place => (edit.hand[place]?.join, edit.hand.eraseIdx place)

variable [Parent π]

def step (edit : Edit T π) : EditStep → Except Hazard (Course T π)
  | .look => do
      let _ ← edit.editor.node edit.depot.memory
      return .going edit
  | .advance => do
      let node ← edit.editor.node edit.depot.memory
      match ← edit.editor.advance? edit.depot.memory with
      | some editor => return .going { edit with editor, passed := edit.passed ++ [node] }
      | none => return .past edit
  | .link choice => do
      let (successors, hand) := edit.take choice
      let linked ← edit.depot.memory.gather successors
      let addr ← edit.editor.addr edit.depot.memory
      let (cut, memory) ← edit.depot.memory.relink addr successors
      let handed ← memory.gather cut
      return .going { edit with
        depot := { edit.depot with memory }
        hand := hand ++ [cut]
        linked := edit.linked ++ linked
        handed := edit.handed ++ handed }
  | .release => do
      let (outcome, left, depot) ← edit.editor.release edit.depot
      return .released edit outcome left depot

/-- Takes steps in order until they are used up or the edit has ended. -/
def run : List EditStep → Edit T π → Except Hazard (Course T π)
  | [], edit => .ok (.going edit)
  | step :: steps, edit => do
      match ← edit.step step with
      | .going edit => run steps edit
      | ended => return ended

end Edit

/-- The edit of the list under a name, with all other lists in hand. There is none of an empty
list. -/
def Machine.edit? (machine : Machine T π) (name : String) : Option (Edit T π) :=
  (Editor.ofLink? (machine.first name)).map fun editor => {
    editor
    depot := machine.depot
    hand := (machine.holders.erase name).entries.map fun entry => entry.2.first
    passed := []
    linked := []
    handed := [] }

/-- The lists in hand can be read, and consist of the nodes that were there at first, without those
linked in and with those handed back. -/
def Edit.InHand (others : Tail T) (memory : Memory T) (edit : Edit T π) : Prop :=
  ∃ loose, memory.gatherAll edit.hand = .ok loose ∧
    (↑(loose ++ edit.linked) : Multiset (Node T)) = ↑(others ++ edit.handed)

/-- The editor stands at `focus`, with the nodes `behind` linked behind it. `before` are the nodes
of the list when the edit began, `others` those of all lists in hand. -/
structure Edit.Stands (before others : Tail T) (focus : Node T) (behind : Tail T)
    (edit : Edit T π) : Prop where
  slot : edit.editor.link edit.depot.memory = .ok (some focus.addr)
  node : edit.editor.node edit.depot.memory = .ok focus
  inside : edit.depot.memory.gather (some focus.addr) = .ok (focus :: behind)
  whole : edit.depot.memory.gather edit.editor.first = .ok (edit.passed ++ focus :: behind)
  nodes : (↑(edit.passed ++ focus :: behind ++ edit.handed) : Multiset (Node T)) =
    ↑(before ++ edit.linked)
  hand : edit.InHand others edit.depot.memory

/-- The node at which the editor stood has been released, and the list closed over the gap. -/
structure Edit.Closes (before others : Tail T) (focus : Node T) (behind : Tail T)
    (left : Option Nat) (memory : Memory T) (edit : Edit T π) : Prop where
  whole : memory.gather left = .ok (edit.passed ++ behind)
  gone : memory.get? focus.addr = none
  nodes : (↑(edit.passed ++ behind ++ edit.handed) : Multiset (Node T)) + {focus} =
    ↑(before ++ edit.linked)
  hand : edit.InHand others memory

/-- The editor stands at a node, or stood at one when the edit ended. -/
def Course.Zips (before others : Tail T) : Course T π → Prop
  | .going edit => ∃ focus behind, edit.Stands before others focus behind
  | .past edit => ∃ focus, edit.Stands before others focus []
  | .released edit outcome left depot => ∃ focus behind, edit.Stands before others focus behind ∧
      ∀ value, outcome = .ok value →
        value = focus.value ∧ edit.Closes before others focus behind left depot.memory

/-- The edit is that of a zipper, in a memory of the list and those in hand. -/
structure Edit.Keeps (before others : Tail T) (zipper : Zipper T) (lists : List (Tail T))
    (edit : Edit T π) : Prop where
  editor : edit.editor = zipper.editor
  passed : edit.passed = zipper.passed.reverse
  hand : edit.hand = lists.map Tail.link
  memory : edit.depot.memory.Holds (zipper.nodes.records + (lists.map Tail.records).sum)
  nodes : (↑(zipper.nodes ++ edit.handed) : Multiset (Node T)) = ↑(before ++ edit.linked)
  loose : (↑(lists.flatten ++ edit.linked) : Multiset (Node T)) = ↑(others ++ edit.handed)

namespace Edit.Keeps

variable {before others : Tail T} {zipper : Zipper T} {lists : List (Tail T)} {edit : Edit T π}

theorem node (keeps : edit.Keeps before others zipper lists) :
    edit.editor.node edit.depot.memory = .ok zipper.focus := by
  have place := Zipper.addr_editor keeps.memory
  have record := (Zipper.record_focus keeps.memory).read
  rw [keeps.editor]
  simp only [Editor.node, place, record, ok_bind, pure_eq_ok]
  rfl

theorem inHand (keeps : edit.Keeps before others zipper lists) {memory : Memory T}
    {rest : Multiset (Nat × Record T)}
    (holds : memory.Holds ((lists.map Tail.records).sum + rest)) : edit.InHand others memory := by
  refine ⟨lists.flatten, ?_, keeps.loose⟩
  rw [keeps.hand]
  exact Memory.gatherAll_eq lists holds

theorem stands (keeps : edit.Keeps before others zipper lists) :
    edit.Stands before others zipper.focus zipper.rest := by
  have held := keeps.memory
  have inside := held
  rw [Zipper.records_nodes, add_assoc] at inside
  refine ⟨?_, keeps.node, ?_, ?_, ?_, keeps.inHand (held.cast (add_comm _ _))⟩
  · rw [keeps.editor]
    exact Editor.link_behind inside
  · have behind : edit.depot.memory.Holds (Tail.records (zipper.focus :: zipper.rest) + _) :=
      inside.cast (add_left_comm _ _ _)
    exact behind.gather
  · rw [keeps.editor, Zipper.first_editor, keeps.passed]
    exact held.gather
  · rw [keeps.passed]
    exact keeps.nodes

end Edit.Keeps

theorem Edit.take_eq {lists : List (Tail T)} {edit : Edit T π}
    (hand : edit.hand = lists.map Tail.link) (choice : Option Nat) :
    ∃ (taken : Tail T) (left : List (Tail T)),
      edit.take choice = (taken.link, left.map Tail.link) ∧
      lists.flatten.Perm (taken ++ left.flatten) ∧
      (lists.map Tail.records).sum = taken.records + (left.map Tail.records).sum := by
  cases choice with
  | none =>
    refine ⟨[], lists, ?_, .refl _, (zero_add _).symm⟩
    rw [take, hand]
    rfl
  | some place =>
    have rest : edit.hand.eraseIdx place = (lists.eraseIdx place).map Tail.link := by
      rw [hand, List.eraseIdx_map]
    by_cases inside : place < lists.length
    · have perm := (List.getElem_cons_eraseIdx_perm inside).symm
      have chosen : edit.hand[place]?.join = Tail.link lists[place] := by
        rw [hand, List.getElem?_map, List.getElem?_eq_getElem inside]
        rfl
      refine ⟨lists[place], lists.eraseIdx place, ?_, perm.flatten, (perm.map _).sum_eq⟩
      rw [take, rest, chosen]
    · have short := Nat.le_of_not_lt inside
      have chosen : edit.hand[place]?.join = none := by
        rw [hand, List.getElem?_map, List.getElem?_eq_none short]
        rfl
      refine ⟨[], lists, ?_, .refl _, (zero_add _).symm⟩
      rw [take, rest, chosen, List.eraseIdx_of_length_le short]
      rfl

theorem Represents.keeps_edit {machine : Machine T π} {session : Session T π} {name : String}
    {register : Register T} (represents : Represents 0 machine session)
    (found : machine.view name = .ok (some register)) (filled : register.nodes ≠ []) :
    ∃ edit zipper lists, machine.edit? name = some edit ∧
      edit.Keeps register.nodes lists.flatten zipper lists := by
  have nodes : session.nodes name = register.nodes := by
    rw [Session.nodes, Registers.nodes, represents.found_register found]
  have held := represents.holds name
  rw [nodes, add_zero] at held
  obtain ⟨node, rest, shape⟩ := List.exists_cons_of_ne_nil filled
  rw [shape] at held ⊢
  have begun : machine.edit? name = some {
      editor := Zipper.editor ⟨[], node, rest⟩
      depot := machine.depot
      hand := (machine.holders.erase name).entries.map fun entry => entry.2.first
      passed := []
      linked := []
      handed := [] } := by
    rw [Machine.edit?, represents.first, nodes, shape]
    rfl
  refine ⟨_, _, (session.registers.erase name).entries.map fun entry => entry.2.nodes, begun, rfl,
    rfl, ?_, held.cast ?_, rfl, rfl⟩
  · rw [represents.holders, ← Directory.map_erase, Directory.map, List.map_map, List.map_map]
    exact List.map_congr_left fun entry _ => entry.2.first_holder
  · rw [List.map_map]
    rfl

section Walks

def Course.left : Course T π → Option Nat
  | .going edit => edit.editor.first
  | .past edit => edit.editor.first
  | .released _ _ left _ => left

def Course.depot : Course T π → Depot T π
  | .going edit => edit.depot
  | .past edit => edit.depot
  | .released _ _ _ depot => depot

def Course.hand : Course T π → List (Option Nat)
  | .going edit => edit.hand
  | .past edit => edit.hand
  | .released edit _ _ _ => edit.hand

/-- The links of all holders. -/
def Machine.links (machine : Machine T π) : List (Option Nat) :=
  machine.holders.entries.map fun entry => entry.2.first

/-- Whether a step of a walk keeps what it cuts off. -/
def WalkStep.keeps : WalkStep → Bool
  | .splitOff target => target.isSome
  | .link _ target => target.isSome
  | _ => true

/-- The edit is where a walk has got to, with all holders' lists and those set aside in hand. -/
structure Edit.Follows (editor : Editor) (machine : Machine T π)
    (aside : List (String × Option Nat)) (edit : Edit T π) : Prop where
  editor : edit.editor = editor
  depot : edit.depot = machine.depot
  hand : edit.hand = machine.links ++ aside.reverse.map Prod.snd

/-- The edit has come to where a walk has ended. -/
structure Course.Reaches (ended : EditEnd T π) (course : Course T π) : Prop where
  left : course.left = ended.left
  depot : course.depot = ended.machine.depot
  hand : course.hand = ended.machine.links ++ ended.aside.map Prod.snd

variable {edit : Edit T π} {machine : Machine T π} {editor : Editor}
  {aside : List (String × Option Nat)}

theorem Directory.entries_erase_of_absent {α : Type} {directory : Directory α} {name : String}
    (absent : directory.get? name = none) :
    (directory.erase name).entries = directory.entries := by
  rw [get?, List.lookup_eq_none_iff] at absent
  refine List.filter_eq_self.2 fun entry member => decide_eq_true fun same => ?_
  exact bne_iff_ne.1 (absent entry member) same.symm

theorem Directory.exists_of_get? {α : Type} {directory : Directory α} {name : String} {held : α}
    (found : directory.get? name = some held) :
    ∃ front back, directory.entries = front ++ (name, held) :: back ∧
      (directory.erase name).entries = front ++ back := by
  rw [get?, List.lookup_eq_some_iff] at found
  obtain ⟨front, back, shape, -⟩ := found
  have unique := directory.names_nodup
  rw [shape, List.map_append, List.map_cons, List.nodup_middle, ← List.map_append] at unique
  have off : name ∉ (front ++ back).map Prod.fst := (List.nodup_cons.1 unique).1
  refine ⟨front, back, shape, ?_⟩
  show directory.entries.filter (fun entry => entry.1 ≠ name) = front ++ back
  rw [shape, List.filter_append, List.filter_cons_of_neg (by simp), ← List.filter_append]
  refine List.filter_eq_self.2 fun entry member => decide_eq_true fun same => off ?_
  rw [← same]
  exact List.mem_map_of_mem member

/-- A walk that leaves its list where it stands has an edit that is still going. -/
theorem Edit.Follows.reaches (follows : edit.Follows editor machine aside) (reply : Reply T) :
    (Course.going edit).Reaches ⟨reply, editor.first, aside.reverse, machine⟩ :=
  ⟨congrArg Editor.first follows.editor, follows.depot, follows.hand⟩

/-- A list that is taken from a holder is taken out of the hand. -/
theorem Edit.Follows.exists_choice (follows : edit.Follows editor machine aside)
    (source : Option String) :
    ∃ choice, edit.take choice = ((machine.take? source).1,
      (machine.take? source).2.links ++ aside.reverse.map Prod.snd) := by
  cases source with
  | none => exact ⟨none, congrArg _ follows.hand⟩
  | some name =>
    cases found : machine.holders.get? name with
    | none =>
      refine ⟨none, ?_⟩
      rw [take, follows.hand]
      simp only [Machine.take?, Machine.take, Machine.first, found, Machine.links,
        Directory.entries_erase_of_absent found]
    | some holder =>
      obtain ⟨front, back, shape, erased⟩ := Directory.exists_of_get? found
      refine ⟨some front.length, ?_⟩
      have hand : edit.hand = front.map (fun entry => entry.2.first) ++ holder.first ::
          (back.map (fun entry => entry.2.first) ++ aside.reverse.map Prod.snd) := by
        rw [follows.hand, Machine.links, shape, List.map_append, List.map_cons, List.append_assoc,
          List.cons_append]
      have place : front.length = (front.map fun entry => entry.2.first).length :=
        (List.length_map _).symm
      rw [take, hand, place, List.getElem?_append_right (Nat.le_refl _), Nat.sub_self,
        List.eraseIdx_append_of_length_le (Nat.le_refl _), Nat.sub_self]
      simp only [Machine.take?, Machine.take, Machine.first, found, Machine.links, erased,
        List.map_append, List.append_assoc]
      rfl

end Walks

variable [Parent π]

namespace Edit.Keeps

variable {before others : Tail T} {zipper : Zipper T} {lists : List (Tail T)} {edit : Edit T π}

theorem advance (keeps : edit.Keeps before others zipper lists) :
    ∃ course, edit.step .advance = .ok course ∧ course.Zips before others ∧
      ∀ next, course = .going next → ∃ moved lists, next.Keeps before others moved lists := by
  have moves := Zipper.advance?_editor keeps.memory
  have stands := keeps.stands
  rw [← keeps.editor] at moves
  simp only [step, keeps.node, moves, ok_bind]
  obtain ⟨passed, focus, rest⟩ := zipper
  cases rest with
  | nil => exact ⟨.past edit, rfl, ⟨focus, stands⟩, fun next same => by cases same⟩
  | cons node rest =>
    have moved : Keeps before others ⟨focus :: passed, node, rest⟩ lists
        { edit with
          editor := Zipper.editor ⟨focus :: passed, node, rest⟩
          passed := edit.passed ++ [focus] } := by
      have same : Zipper.nodes ⟨focus :: passed, node, rest⟩ =
          Zipper.nodes ⟨passed, focus, node :: rest⟩ := (Zipper.nodes_of_advance? rfl).1
      refine ⟨rfl, ?_, keeps.hand, same ▸ keeps.memory, same ▸ keeps.nodes, keeps.loose⟩
      rw [keeps.passed, List.reverse_cons]
    refine ⟨.going _, rfl, ⟨_, _, moved.stands⟩, fun next same => ?_⟩
    cases same
    exact ⟨_, _, moved⟩

theorem link (keeps : edit.Keeps before others zipper lists) (choice : Option Nat) :
    ∃ course, edit.step (.link choice) = .ok course ∧ course.Zips before others ∧
      ∀ next, course = .going next → ∃ moved lists, next.Keeps before others moved lists := by
  obtain ⟨taken, left, took, perm, records⟩ := take_eq keeps.hand choice
  have held : edit.depot.memory.Holds (zipper.nodes.records +
      (taken.records + (left.map Tail.records).sum)) :=
    keeps.memory.cast (congrArg _ records)
  have place := Zipper.addr_editor held
  have linked := (held.cast (add_left_comm _ _ _)).gather
  obtain ⟨memory, relinked, whole⟩ := Zipper.relink_focus held
  have handed := (whole.cast (add_left_comm _ _ _)).gather
  rw [← keeps.editor] at place
  simp only [step, took, linked, place, relinked, handed, ok_bind, pure_eq_ok]
  have exchanged := Zipper.coe_nodes_link taken zipper
  have kept : Keeps before others (zipper.link taken).2 (left ++ [zipper.rest]) {
      editor := edit.editor
      depot := { edit.depot with memory }
      hand := left.map Tail.link ++ [Tail.link zipper.rest]
      passed := edit.passed
      linked := edit.linked ++ taken
      handed := edit.handed ++ zipper.rest } := by
    refine ⟨keeps.editor, keeps.passed, ?_, whole.cast ?_, ?_, ?_⟩
    · rw [List.map_append]
      rfl
    · rw [List.map_append, List.sum_append, List.map_singleton, List.sum_singleton,
        add_comm (List.sum _)]
      rfl
    · have nodes := keeps.nodes
      simp only [← Multiset.coe_add] at nodes ⊢
      calc (↑(zipper.link taken).2.nodes + (↑edit.handed + ↑zipper.rest) : Multiset (Node T))
          = ↑(zipper.link taken).2.nodes + ↑(zipper.link taken).1 + ↑edit.handed := by
            rw [add_comm (Multiset.ofList edit.handed), ← add_assoc]
            rfl
        _ = ↑zipper.nodes + ↑edit.handed + ↑taken := by rw [← exchanged, add_right_comm]
        _ = ↑before + (↑edit.linked + ↑taken) := by rw [nodes, add_assoc]
    · have loose := keeps.loose
      rw [← Multiset.coe_add, Multiset.coe_eq_coe.2 perm] at loose
      simp only [List.flatten_append, List.flatten_singleton, ← Multiset.coe_add] at loose ⊢
      calc (↑left.flatten + ↑zipper.rest + (↑edit.linked + ↑taken) : Multiset (Node T))
          = ↑taken + ↑left.flatten + ↑edit.linked + ↑zipper.rest := by abel
        _ = ↑others + (↑edit.handed + ↑zipper.rest) := by rw [loose, add_assoc]
  refine ⟨.going _, rfl, ⟨_, _, kept.stands⟩, fun next same => ?_⟩
  cases same
  exact ⟨_, _, kept⟩

theorem release (keeps : edit.Keeps before others zipper lists) :
    ∃ course, edit.step .release = .ok course ∧ course.Zips before others ∧
      ∀ next, course = .going next → ∃ moved lists, next.Keeps before others moved lists := by
  rcases released : zipper.release edit.depot.store with ⟨outcome, left, store⟩
  obtain ⟨memory, edited, whole⟩ := Zipper.release_editor keeps.memory released
  have freed : edit.editor.release edit.depot = _ := keeps.editor ▸ edited
  simp only [step, freed, ok_bind, pure_eq_ok]
  refine ⟨_, rfl, ⟨_, _, keeps.stands, fun value same => ?_⟩, fun next same => by cases same⟩
  subst same
  obtain ⟨rfl, rfl⟩ := zipper.eq_of_release released
  rw [Zipper.eraseIdx_nodes] at whole ⊢
  refine ⟨rfl, ?_, ?_, ?_, keeps.inHand (whole.cast (add_comm _ _))⟩
  · rw [keeps.passed]
    exact whole.gather
  · apply whole.get?_eq_none
    have distinct := (Zipper.record_focus keeps.memory).distinct
    rw [Multiset.map_cons, Multiset.nodup_cons] at distinct
    have same : (Tail.records (zipper.passed.reverse ++ zipper.rest) +
        (lists.map Tail.records).sum).map Prod.fst = (zipper.rest.records +
          (Tail.segment zipper.passed.reverse (some zipper.focus.addr) +
            (lists.map Tail.records).sum)).map Prod.fst := by
      simp only [Tail.records_append, Multiset.map_add, Tail.map_fst_segment]
      abel
    rw [same]
    exact distinct.1
  · rw [← keeps.nodes, keeps.passed, Zipper.nodes]
    simp only [← Multiset.coe_add, ← Multiset.cons_coe, ← Multiset.singleton_add]
    abel

theorem step (keeps : edit.Keeps before others zipper lists) (step : EditStep) :
    ∃ course, edit.step step = .ok course ∧ course.Zips before others ∧
      ∀ next, course = .going next → ∃ moved lists, next.Keeps before others moved lists := by
  cases step with
  | look =>
    refine ⟨.going edit, ?_, ⟨_, _, keeps.stands⟩, fun next same => ?_⟩
    · simp only [Edit.step, keeps.node, ok_bind, pure_eq_ok]
    · cases same
      exact ⟨_, _, keeps⟩
  | advance => exact keeps.advance
  | link choice => exact keeps.link choice
  | release => exact keeps.release

theorem run (keeps : edit.Keeps before others zipper lists) (steps : List EditStep) :
    ∃ course, edit.run steps = .ok course ∧ course.Zips before others := by
  induction steps generalizing edit zipper lists with
  | nil => exact ⟨.going edit, rfl, _, _, keeps.stands⟩
  | cons step steps ih =>
    obtain ⟨course, stepped, zips, onward⟩ := keeps.step step
    simp only [Edit.run, stepped, ok_bind]
    cases course with
    | going next =>
      obtain ⟨moved, lists, kept⟩ := onward next rfl
      exact ih kept
    | past last => exact ⟨_, rfl, zips⟩
    | released last outcome left depot => exact ⟨_, rfl, zips⟩

variable {machine taken joined : Machine T π} {editor : Editor}
  {aside : List (String × Option Nat)}

/-- Where a walk has no node to go on to, the edit is over as well. -/
theorem step_advance_last (keeps : edit.Keeps before others zipper lists)
    (follows : edit.Follows editor machine aside)
    (stays : editor.advance? machine.memory = .ok none) : edit.step .advance = .ok (.past edit) := by
  have stays' : edit.editor.advance? edit.depot.memory = .ok none := by
    rw [follows.editor, follows.depot]
    exact stays
  simp only [Edit.step, keeps.node, stays', ok_bind, pure_eq_ok]

theorem follow_advance (keeps : edit.Keeps before others zipper lists)
    (follows : edit.Follows editor machine aside) {moved : Editor}
    (went : editor.advance? machine.memory = .ok (some moved)) :
    ∃ next zipper lists, edit.step .advance = .ok (.going next) ∧
      next.Keeps before others zipper lists ∧ next.Follows moved machine aside := by
  have went' : edit.editor.advance? edit.depot.memory = .ok (some moved) := by
    rw [follows.editor, follows.depot]
    exact went
  obtain ⟨course, stepped, -, onward⟩ := keeps.advance
  have whole := stepped
  simp only [Edit.step, keeps.node, went', ok_bind] at stepped
  cases stepped
  obtain ⟨zipper, lists, kept⟩ := onward _ rfl
  exact ⟨_, zipper, lists, whole, kept, rfl, follows.depot, follows.hand⟩

/-- What a walk links in and sets aside is taken from the hand and put back there. -/
theorem follow_link (keeps : edit.Keeps before others zipper lists)
    (follows : edit.Follows editor machine aside) {source : Option String} {name : String}
    {addr : Nat} {cut : Option Nat} (place : editor.addr machine.memory = .ok addr)
    (relinked : (machine.take? source).2.relink addr (machine.take? source).1 = .ok (cut, joined)) :
    ∃ choice next zipper lists, edit.step (.link choice) = .ok (.going next) ∧
      next.Keeps before others zipper lists ∧
      next.Follows editor joined ((name, cut) :: aside) := by
  obtain ⟨choice, took⟩ := follows.exists_choice source
  obtain ⟨course, stepped, -, onward⟩ := keeps.link choice
  have whole := stepped
  simp only [Edit.step, took, follows.editor, follows.depot] at stepped
  obtain ⟨linked, -, stepped⟩ := exists_of_bind_eq_ok stepped
  obtain ⟨found, place', stepped⟩ := exists_of_bind_eq_ok stepped
  obtain ⟨⟨cut', memory⟩, relinked', stepped⟩ := exists_of_bind_eq_ok stepped
  obtain ⟨handed, -, stepped⟩ := exists_of_bind_eq_ok stepped
  obtain rfl : addr = found := Except.ok.inj (place.symm.trans place')
  have depot : (machine.take? source).2.depot = machine.depot := by
    cases source <;> rfl
  obtain ⟨⟨_, _⟩, relinked'', same⟩ := exists_of_bind_eq_ok relinked
  rw [Machine.memory, depot, relinked'] at relinked''
  cases relinked''
  cases same
  cases stepped
  obtain ⟨moved, lists, kept⟩ := onward _ rfl
  refine ⟨choice, _, moved, lists, whole, kept, rfl, ?_, ?_⟩
  · rw [depot]
  · rw [List.reverse_cons, List.map_append, ← List.append_assoc]
    rfl

/-- Every walk that keeps what it cuts off goes as an edit does. -/
theorem exists_run (keeps : edit.Keeps before others zipper lists)
    (follows : edit.Follows editor machine aside) {steps : List WalkStep}
    (kept : ∀ step ∈ steps, step.keeps = true) {answers : List (Answer T)} {ended : EditEnd T π}
    (walked : editor.walk answers aside machine steps = .ok ended) :
    ∃ edits course, edit.run edits = .ok course ∧ course.Reaches ended := by
  induction steps generalizing edit zipper lists editor machine aside answers with
  | nil =>
    cases walked
    exact ⟨[], .going edit, rfl, follows.reaches _⟩
  | cons step steps ih =>
    obtain ⟨here, behind⟩ := List.forall_mem_cons.1 kept
    have reads : ∀ {answers}, editor.walk answers aside machine steps = .ok ended →
        ∃ edits course, edit.run edits = .ok course ∧ course.Reaches ended := by
      intro answers walked
      obtain ⟨edits, course, ran, reaches⟩ := ih keeps follows behind walked
      refine ⟨.look :: edits, course, ?_, reaches⟩
      simp only [Edit.run, Edit.step, keeps.node, ok_bind, pure_eq_ok, ran]
    have links : ∀ source {name addr cut joined answers}, editor.addr machine.memory = .ok addr →
        (machine.take? source).2.relink addr (machine.take? source).1 = .ok (cut, joined) →
        editor.walk answers ((name, cut) :: aside) joined steps = .ok ended →
        ∃ edits course, edit.run edits = .ok course ∧ course.Reaches ended := by
      intro source name addr cut joined answers place relinked walked
      obtain ⟨choice, next, moved, lists, stepped, kept, followed⟩ :=
        keeps.follow_link follows place relinked
      obtain ⟨edits, course, ran, reaches⟩ := ih kept followed behind walked
      refine ⟨.link choice :: edits, course, ?_, reaches⟩
      simp only [Edit.run, stepped, ok_bind, ran]
    cases step with
    | value | terminal | owner =>
      obtain ⟨_, -, walked⟩ := exists_of_bind_eq_ok walked
      exact reads walked
    | valueAndNext | next =>
      obtain ⟨_, -, walked⟩ := exists_of_bind_eq_ok walked
      obtain ⟨⟨_, _⟩, -, walked⟩ := exists_of_bind_eq_ok walked
      exact reads walked
    | render style =>
      cases style with
      | none =>
        cases walked
        exact ⟨[], .going edit, rfl, follows.reaches _⟩
      | some style =>
        obtain ⟨_, -, walked⟩ := exists_of_bind_eq_ok walked
        exact reads walked
    | unrecognised => exact reads walked
    | advance =>
      obtain ⟨moved, went, walked⟩ := exists_of_bind_eq_ok walked
      cases moved with
      | none =>
        cases walked
        obtain ⟨left, depot, hand⟩ := follows.reaches (.answers (.nothing :: answers).reverse)
        refine ⟨[.advance], .past edit, ?_, left, depot, hand⟩
        simp only [Edit.run, keeps.step_advance_last follows went, ok_bind, pure_eq_ok]
      | some moved =>
        obtain ⟨next, zipper, lists, stepped, kept, followed⟩ := keeps.follow_advance follows went
        obtain ⟨edits, course, ran, reaches⟩ := ih kept followed behind walked
        refine ⟨.advance :: edits, course, ?_, reaches⟩
        simp only [Edit.run, stepped, ok_bind, ran]
    | release =>
      obtain ⟨⟨outcome, left, depot⟩, released, walked⟩ := exists_of_bind_eq_ok walked
      have released' : edit.editor.release edit.depot = .ok (outcome, left, depot) := by
        rw [follows.editor, follows.depot]
        exact released
      refine ⟨[.release], .released edit outcome left depot, ?_, ?_⟩
      · simp only [Edit.run, Edit.step, released', ok_bind, pure_eq_ok]
      · cases outcome <;> cases walked <;> exact ⟨rfl, rfl, follows.hand⟩
    | splitOff target =>
      obtain ⟨name, rfl⟩ := Option.isSome_iff_exists.1 here
      obtain ⟨addr, place, walked⟩ := exists_of_bind_eq_ok walked
      obtain ⟨⟨cut, joined⟩, relinked, walked⟩ := exists_of_bind_eq_ok walked
      obtain ⟨_, -, walked⟩ := exists_of_bind_eq_ok walked
      exact links none place relinked walked
    | link source target =>
      obtain ⟨name, rfl⟩ := Option.isSome_iff_exists.1 here
      obtain ⟨addr, place, walked⟩ := exists_of_bind_eq_ok walked
      obtain ⟨⟨cut, joined⟩, relinked, walked⟩ := exists_of_bind_eq_ok walked
      obtain ⟨_, -, walked⟩ := exists_of_bind_eq_ok walked
      have place' : editor.addr machine.memory = .ok addr := by
        cases source <;> exact place
      exact links source place' relinked walked

end Edit.Keeps

namespace Represents

variable {machine : Machine T π} {session : Session T π} {name : String} {register : Register T}

/-- An editor that starts at the first node of a list never comes to a record that is missing. -/
theorem exists_walk (represents : Represents 0 machine session) {editor : Editor}
    (there : Editor.ofLink? (machine.first name) = some editor) (steps : List WalkStep) :
    ∃ ended, editor.walk [] [] { machine with holders := machine.holders.erase name } steps =
      .ok ended := by
  rw [represents.first, Zipper.editor_ofTail?] at there
  obtain ⟨zipper, place, rfl⟩ := Option.map_eq_some_iff.1 there
  have listed : zipper.nodes = session.nodes name := (Zipper.nodes_of_ofTail? place).1
  obtain ⟨after, walked, -⟩ := Zipper.followed steps [] (represents.take_zipper listed)
  exact ⟨_, walked⟩

/-- Whatever is done with an editor in a list that is not empty, lists that it is given being taken
from those that are owned: it always stands at a node. The list read from its head is the nodes gone
through, as they were, followed by what is read from the editor's slot. Nodes are moved between the
list and those in hand, and the only one ever missing is the one released in the end. All this is so
of the walks through the list that keep what they cut off: each goes as an edit does, the lists of
the other holders being those in hand. -/
theorem zips_run (represents : Represents 0 machine session)
    (found : machine.view name = .ok (some register)) (filled : register.nodes ≠ []) :
    ∃ edit others, machine.edit? name = some edit ∧
      machine.memory.gatherAll edit.hand = .ok others ∧
      (∀ steps, ∃ course, edit.run steps = .ok course ∧ course.Zips register.nodes others) ∧
      ∀ steps : List WalkStep, (∀ step ∈ steps, step.keeps = true) → ∃ ended edits course,
        edit.editor.walk [] [] { machine with holders := machine.holders.erase name } steps =
          .ok ended ∧ edit.run edits = .ok course ∧ course.Reaches ended := by
  obtain ⟨edit, zipper, lists, begun, keeps⟩ := represents.keeps_edit found filled
  obtain ⟨editor, there, same⟩ := Option.map_eq_some_iff.1 begun
  have first : Editor.ofLink? (machine.first name) = some edit.editor := by rw [there, ← same]
  have follows : edit.Follows edit.editor
      { machine with holders := machine.holders.erase name } [] := by
    rw [← same]
    exact ⟨rfl, rfl, (List.append_nil _).symm⟩
  have held := Memory.gatherAll_eq lists (keeps.memory.cast (add_comm _ _))
  rw [← keeps.hand, follows.depot] at held
  refine ⟨edit, lists.flatten, begun, held, keeps.run, fun steps kept => ?_⟩
  obtain ⟨ended, walked⟩ := represents.exists_walk first steps
  obtain ⟨edits, course, ran, reaches⟩ := keeps.exists_run follows kept walked
  exact ⟨ended, edits, course, walked, ran, reaches⟩

/-- In a list of two ledgers: another list is linked in behind the second node, the editor goes on
into it, cuts off what is behind the next node, and releases that one. -/
theorem zips_run_fork :
    let before : List (Op .fork Arena) := [.chain "list" .attempt (some (1 : Fin 3)) [1, 2, 3],
      .chain "more" .insist (some (2 : Fin 3)) [4, 5], .pushFront "list" .insist 6]
    let steps : List EditStep :=
      [.advance, .link (some 0), .look, .advance, .link none, .release]
    let walk : List WalkStep := [.advance, .link (some "more") (some "rest"), .value, .advance,
      .splitOff (some "cut"), .release]
    let start : Machine .fork Arena := Machine.opened (.opened (fun _ => none) (.ofCapacity 4096))
    ∃ given machine register edit others,
      Machine.performAll before start = .ok (given, machine) ∧
      machine.view "list" = .ok (some register) ∧ register.nodes ≠ [] ∧
      machine.edit? "list" = some edit ∧ machine.memory.gatherAll edit.hand = .ok others ∧
      (∃ course, edit.run steps = .ok course ∧ course.Zips register.nodes others) ∧
      ∃ ended edits course,
        edit.editor.walk [] [] { machine with holders := machine.holders.erase "list" } walk =
          .ok ended ∧ edit.run edits = .ok course ∧ course.Reaches ended := by
  intro before steps walk start
  have lasting : start.answersAll (fun reply => reply.isAbort = false) before = true := by
    decide +kernel
  obtain ⟨given, machine, reached, survived⟩ := Machine.exists_of_answersAll lasting
  let register : Register .fork := .chain ⟨[⟨4216, 6, some (1 : Fin 3)⟩,
    ⟨4144, 1, some (1 : Fin 3)⟩, ⟨4120, 2, some (1 : Fin 3)⟩, ⟨4096, 3, some (1 : Fin 3)⟩],
    some (1 : Fin 3)⟩
  have checked : (match Machine.performAll before start with
      | .ok (_, machine) => decide (machine.view "list" = .ok (some register))
      | .error _ => false) = true := by decide +kernel
  rw [reached] at checked
  have found := of_decide_eq_true checked
  have filled : register.nodes ≠ [] := List.cons_ne_nil _ _
  obtain ⟨session, represents⟩ := Machine.exists_represents reached survived
  obtain ⟨edit, others, begun, hand, runs, follows⟩ := represents.zips_run found filled
  have kept : ∀ step ∈ walk, step.keeps = true := by decide
  obtain ⟨ended, edits, course, walked, ran, reaches⟩ := follows walk kept
  exact ⟨given, machine, register, edit, others, reached, found, filled, begun, hand, runs steps,
    ended, edits, course, walked, ran, reaches⟩

end Represents

end ChainLedger
