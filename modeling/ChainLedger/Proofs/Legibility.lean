import ChainLedger.Proofs.Refinement

set_option autoImplicit false

namespace ChainLedger

section Digits

variable {base : Nat}

theorem digitChar_inj : ∀ first < 16, ∀ second < 16,
    Nat.digitChar first = Nat.digitChar second → first = second := by
  decide

/-- A number below the base has one digit, any other has digits in front of its last one. -/
theorem toDigits_ne_of_lt (more : 1 < base) {n m : Nat} (small : n < base) (large : ¬ m < base) :
    Nat.toDigits base n ≠ Nat.toDigits base m := by
  intro equal
  have length := congrArg List.length equal
  have front := Nat.length_toDigits_pos (n := m / base) (b := base)
  rw [Nat.toDigits_of_lt_base small, Nat.toDigits_of_base_le more (Nat.not_lt.1 large),
    List.length_append, List.length_singleton, List.length_singleton] at length
  omega

/-- No two numbers have the same digits. -/
theorem toDigits_injective (more : 1 < base) (few : base ≤ 16) :
    Function.Injective (Nat.toDigits base) := by
  intro first
  induction first using Nat.strongRecOn with
  | ind first ih =>
    intro second same
    have last : ∀ n, n % base < 16 := fun n => by
      have := Nat.mod_lt n (Nat.zero_lt_of_lt more)
      omega
    by_cases small : first < base
    · by_cases small' : second < base
      · rw [Nat.toDigits_of_lt_base small, Nat.toDigits_of_lt_base small',
          List.singleton_inj] at same
        exact digitChar_inj first (by omega) second (by omega) same
      · exact absurd same (toDigits_ne_of_lt more small small')
    · by_cases small' : second < base
      · exact absurd same.symm (toDigits_ne_of_lt more small' small)
      · rw [Nat.toDigits_of_base_le more (Nat.not_lt.1 small),
          Nat.toDigits_of_base_le more (Nat.not_lt.1 small')] at same
        obtain ⟨fronts, ends⟩ := List.append_inj' same rfl
        have quotients : first / base = second / base :=
          ih (first / base) (Nat.div_lt_self (by omega) more) fronts
        have remainders : first % base = second % base :=
          digitChar_inj _ (last first) _ (last second) (List.singleton_inj.1 ends)
        rw [← Nat.div_add_mod first base, quotients, remainders, Nat.div_add_mod]

theorem exists_digit (more : 1 < base) {n : Nat} {c : Char} (member : c ∈ Nat.toDigits base n) :
    ∃ digit, Nat.digitChar digit = c := by
  induction n using Nat.strongRecOn with
  | ind n ih =>
    rw [Nat.toDigits_eq_if more] at member
    split at member
    · exact ⟨n, (List.mem_singleton.1 member).symm⟩
    · next large =>
      rcases List.mem_append.1 member with front | last
      · exact ih (n / base) (Nat.div_lt_self (by omega) more) front
      · exact ⟨n % base, (List.mem_singleton.1 last).symm⟩

end Digits

/-- A text that can be told from the marks of a list that it stands in. -/
structure Legible (text : List Char) : Prop where
  some : text ≠ []
  comma : ',' ∉ text
  lineEnd : '\n' ∉ text

namespace Style

variable {mark : Char}

theorem notMem_toDigits {base : Nat} (more : 1 < base) (digit : ∀ n, Nat.digitChar n ≠ mark)
    (n : Nat) : mark ∉ Nat.toDigits base n := by
  intro member
  obtain ⟨d, same⟩ := exists_digit more member
  exact digit d same

theorem notMem_decimal (digit : ∀ n, Nat.digitChar n ≠ mark) (minus : mark ≠ '-') (n : Int) :
    mark ∉ decimal n := by
  simp only [decimal]
  split
  · exact List.not_mem_cons_of_ne_of_not_mem minus (notMem_toDigits (by decide) digit _)
  · exact notMem_toDigits (by decide) digit _

/-- A mark that is neither a digit nor a sign nor a blank is not part of a number. -/
theorem notMem_value (digit : ∀ n, Nat.digitChar n ≠ mark) (other : mark ∉ ['-', '+', ' '])
    (style : Style) (v : Int64) : mark ∉ style.value v := by
  simp only [List.mem_cons, List.not_mem_nil, or_false, not_or] at other
  obtain ⟨minus, plus, blank⟩ := other
  have number : ∀ n, mark ∉ decimal n := notMem_decimal digit minus
  cases style with
  | plain => exact number _
  | spread => exact number _
  | wide =>
    intro member
    rcases List.mem_append.1 member with padding | inside
    · exact blank (List.eq_of_mem_replicate padding)
    · exact number _ inside
  | hex => exact notMem_toDigits (by decide) digit _
  | signed =>
    simp only [value]
    split
    · exact number _
    · exact List.not_mem_cons_of_ne_of_not_mem plus (number _)

theorem decimal_injective : Function.Injective decimal := by
  intro first second same
  have digits := @toDigits_injective 10 (by decide) (by decide)
  have unsigned : ∀ n, '-' ∉ Nat.toDigits 10 n :=
    notMem_toDigits (by decide) fun n => Nat.digitChar_ne '-' rfl
  simp only [decimal] at same
  split at same
  · split at same
    · have equal := digits (List.cons.inj same).2
      omega
    · exact absurd (same ▸ List.mem_cons_self) (unsigned second.natAbs)
  · split at same
    · exact absurd (same ▸ List.mem_cons_self) (unsigned first.natAbs)
    · have equal := digits same
      omega

theorem decimal_ne_nil (n : Int) : decimal n ≠ [] := by
  simp only [decimal]
  split
  · exact List.cons_ne_nil _ _
  · exact Nat.toDigits_ne_nil

/-- What is filled up with blanks can be read without them. -/
theorem filter_leftpad {text : List Char} (width : Nat) (solid : ' ' ∉ text) :
    (List.leftpad width ' ' text).filter (· ≠ ' ') = text := by
  rw [List.leftpad, List.filter_append, List.filter_replicate_of_neg (by decide),
    List.nil_append, List.filter_eq_self]
  intro c member
  exact decide_eq_true fun same => solid (same ▸ member)

/-- No two values are written alike. -/
theorem value_injective (style : Style) : Function.Injective style.value := by
  intro first second same
  have decided : decimal first.toInt = decimal second.toInt → first = second :=
    fun equal => Int64.toInt_inj.1 (decimal_injective equal)
  cases style with
  | plain => exact decided same
  | spread => exact decided same
  | wide =>
    have solid : ∀ v : Int64, ' ' ∉ decimal v.toInt := fun v =>
      notMem_decimal (fun n => Nat.digitChar_ne ' ' rfl) (by decide) v.toInt
    have read := congrArg (List.filter (· ≠ ' ')) same
    exact decided (by rwa [value, value, filter_leftpad 5 (solid first),
      filter_leftpad 5 (solid second)] at read)
  | hex =>
    have bits := UInt64.toNat_inj.1 (toDigits_injective (by decide) (by decide) same)
    cases first
    cases second
    exact congrArg Int64.ofUInt64 bits
  | signed =>
    have unsigned : ∀ v : Int64, '+' ∉ decimal v.toInt := fun v =>
      notMem_decimal (fun n => Nat.digitChar_ne '+' rfl) (by decide) v.toInt
    simp only [value] at same
    split at same
    · split at same
      · exact decided same
      · exact absurd (same ▸ List.mem_cons_self) (unsigned first)
    · split at same
      · exact absurd (same ▸ List.mem_cons_self) (unsigned second)
      · exact decided (List.cons.inj same).2

theorem value_ne_nil (style : Style) (v : Int64) : style.value v ≠ [] := by
  cases style with
  | plain => exact decimal_ne_nil _
  | spread => exact decimal_ne_nil _
  | wide => exact List.append_ne_nil_of_right_ne_nil _ (decimal_ne_nil _)
  | hex => exact Nat.toDigits_ne_nil
  | signed =>
    simp only [value]
    split
    · exact decimal_ne_nil _
    · exact List.cons_ne_nil _ _

theorem legible_value (style : Style) (v : Int64) : Legible (style.value v) where
  some := value_ne_nil style v
  comma := notMem_value (fun _ => Nat.digitChar_ne ',' rfl) (by decide) style v
  lineEnd := notMem_value (fun _ => Nat.digitChar_ne '\n' rfl) (by decide) style v

end Style

namespace Block

section Lines

variable {mark : Char} {gap text : List Char} {texts : List (List Char)}

theorem notMem_intercalate (between : mark ∉ gap) (inside : ∀ text ∈ texts, mark ∉ text) :
    mark ∉ List.intercalate gap texts := by
  induction texts with
  | nil => exact List.not_mem_nil
  | cons text rest ih =>
    have here := inside text List.mem_cons_self
    have later := ih fun other member => inside other (List.mem_cons_of_mem _ member)
    cases rest with
    | nil => rwa [List.intercalate_singleton]
    | cons next rest =>
      rw [List.intercalate_cons_cons]
      simp only [List.mem_append, here, between, later, or_self, not_false_eq_true]

theorem intercalate_append_head (separator front text : List Char) (texts : List (List Char)) :
    List.intercalate separator ((front ++ text) :: texts) =
      front ++ List.intercalate separator (text :: texts) := by
  cases texts with
  | nil => rw [List.intercalate_singleton, List.intercalate_singleton]
  | cons next rest =>
    rw [List.intercalate_cons_cons, List.intercalate_cons_cons]
    simp only [List.append_assoc]

/-- The gap behind a mark can be counted to the text behind it. -/
theorem intercalate_mark (mark : Char) (gap text : List Char) (texts : List (List Char)) :
    List.intercalate (mark :: gap) (text :: texts) =
      List.intercalate [mark] (text :: texts.map (gap ++ ·)) := by
  induction texts generalizing text with
  | nil => rw [List.map_nil, List.intercalate_singleton, List.intercalate_singleton]
  | cons next rest ih =>
    rw [List.map_cons, List.intercalate_cons_cons, List.intercalate_cons_cons,
      intercalate_append_head, ← ih]
    simp only [List.append_assoc, List.cons_append, List.nil_append]

/-- Split at the commas, a line of texts falls into the texts, with the gaps in front of them. -/
theorem splitOn_commas (legible : ∀ other ∈ text :: texts, Legible other) :
    (List.intercalate ", ".toList (text :: texts)).splitOn ',' =
      text :: texts.map ([' '] ++ ·) := by
  have spelled : ", ".toList = [',', ' '] := rfl
  rw [spelled, intercalate_mark]
  refine List.splitOn_intercalate ',' (fun other member => ?_) (List.cons_ne_nil _ _)
  rcases List.mem_cons.1 member with rfl | later
  · exact (legible other List.mem_cons_self).comma
  · obtain ⟨item, inside, rfl⟩ := List.mem_map.1 later
    exact List.not_mem_cons_of_ne_of_not_mem (by decide)
      (legible item (List.mem_cons_of_mem _ inside)).comma

theorem intercalate_ne_nil (separator : List Char) (legible : Legible text) :
    List.intercalate separator (text :: texts) ≠ [] := by
  cases texts with
  | nil =>
    rw [List.intercalate_singleton]
    exact legible.some
  | cons next rest =>
    rw [List.intercalate_cons_cons, List.append_assoc]
    exact List.append_ne_nil_of_left_ne_nil legible.some _

theorem commas_inj {others : List (List Char)} (legible : ∀ text ∈ texts, Legible text)
    (legible' : ∀ text ∈ others, Legible text)
    (same : List.intercalate ", ".toList texts = List.intercalate ", ".toList others) :
    texts = others := by
  cases texts with
  | nil =>
    cases others with
    | nil => rfl
    | cons other others =>
      exact absurd same.symm (intercalate_ne_nil _ (legible' other List.mem_cons_self))
  | cons text texts =>
    cases others with
    | nil => exact absurd same (intercalate_ne_nil _ (legible text List.mem_cons_self))
    | cons other others =>
      have split := congrArg (List.splitOn ',') same
      rw [splitOn_commas legible, splitOn_commas legible', List.cons.injEq] at split
      obtain ⟨rfl, rest⟩ := split
      rw [List.map_injective_iff.2 (List.append_right_injective [' ']) rest]

end Lines

theorem toString_inj {block other : Block} (lines : ∀ line ∈ block, '\n' ∉ line)
    (lines' : ∀ line ∈ other, '\n' ∉ line) (some : block ≠ []) (some' : other ≠ []) :
    block.toString = other.toString ↔ block = other := by
  refine ⟨fun same => ?_, congrArg toString⟩
  have split := congrArg (List.splitOn '\n') (String.ofList_injective same)
  rwa [List.splitOn_intercalate '\n' lines some, List.splitOn_intercalate '\n' lines' some']
    at split

section Lists

variable {style : Style} {name : String} {texts others : List (List Char)}

/-- A spread list has each of its texts on a line of its own. -/
theorem list_spread (name : String) (texts : List (List Char)) :
    list .spread name (texts.map fun text => [text]) =
      if texts = [] then [name.toList ++ ['['] ++ [']']]
      else (name.toList ++ ['[']) ::
        texts.map (fun text => "    ".toList ++ (text ++ [','])) ++ [[']']] := by
  cases texts with
  | nil => rfl
  | cons text texts =>
    have lines : ((text :: texts).map fun text => [text]).flatMap
        (fun item => (withComma item).indent) =
          (text :: texts).map fun text => "    ".toList ++ (text ++ [',']) := by
      rw [List.flatMap_map, List.map_eq_flatMap]
      rfl
    rw [list, enclose, lines]
    rfl

theorem inner_list_spread (name : String) (texts : List (List Char)) :
    (list .spread name (texts.map fun text => [text])).tail.dropLast =
      texts.map fun text => "    ".toList ++ (text ++ [',']) := by
  rw [list_spread]
  split
  · next nothing => rw [nothing]; rfl
  · rw [List.cons_append, List.tail_cons, List.dropLast_concat]

/-- Any other list stands on one line. -/
theorem list_of_ne_spread (close : style ≠ .spread) (name : String) (texts : List (List Char)) :
    list style name (texts.map fun text => [text]) =
      [name.toList ++ ['['] ++ List.intercalate ", ".toList texts ++ [']']] := by
  have lines : (texts.map fun text => [text]).map List.flatten = texts := by
    rw [List.map_map]
    exact List.map_id'' (fun line => List.flatten_singleton) texts
  rw [list, enclose, lines, if_neg close]
  cases texts with
  | nil => rw [List.intercalate_nil, List.append_nil]; rfl
  | cons text texts => rfl

theorem list_ne_nil (style : Style) (name : String) (items : List Block) :
    list style name items ≠ [] := by
  simp only [list, enclose]
  split
  · exact List.cons_ne_nil _ _
  · split <;> exact List.cons_ne_nil _ _

/-- No text goes on to another line. -/
theorem lines_list (plain : '\n' ∉ name.toList) (legible : ∀ text ∈ texts, Legible text) :
    ∀ line ∈ list style name (texts.map fun text => [text]), '\n' ∉ line := by
  intro line member
  have opening : '\n' ∉ name.toList ++ ['['] := by
    rw [List.mem_append, not_or]
    exact ⟨plain, by decide⟩
  by_cases spread : style = .spread
  · subst spread
    rw [list_spread] at member
    split at member
    · rw [List.mem_singleton.1 member, List.mem_append, not_or]
      exact ⟨opening, by decide⟩
    · rcases List.mem_append.1 member with front | last
      · rcases List.mem_cons.1 front with rfl | between
        · exact opening
        · obtain ⟨text, inside, rfl⟩ := List.mem_map.1 between
          simp only [List.mem_append, not_or]
          exact ⟨by decide, (legible text inside).lineEnd, by decide⟩
      · rw [List.mem_singleton.1 last]
        decide
  · rw [list_of_ne_spread spread] at member
    rw [List.mem_singleton.1 member, List.mem_append, List.mem_append, not_or, not_or]
    exact ⟨⟨opening, notMem_intercalate (by decide) fun text inside =>
      (legible text inside).lineEnd⟩, by decide⟩

/-- Lists with the same name look alike exactly if the same texts stand in them. -/
theorem toString_list_inj (plain : '\n' ∉ name.toList) (legible : ∀ text ∈ texts, Legible text)
    (legible' : ∀ text ∈ others, Legible text) :
    (list style name (texts.map fun text => [text])).toString =
      (list style name (others.map fun text => [text])).toString ↔ texts = others := by
  rw [toString_inj (lines_list plain legible) (lines_list plain legible') (list_ne_nil _ _ _)
    (list_ne_nil _ _ _)]
  refine ⟨fun same => ?_, fun same => same ▸ rfl⟩
  by_cases spread : style = .spread
  · subst spread
    have inner := congrArg (fun block => block.tail.dropLast) same
    rw [inner_list_spread, inner_list_spread] at inner
    exact List.map_injective_iff.2 (fun text other line =>
      List.append_cancel_right (List.append_cancel_left line)) inner
  · rw [list_of_ne_spread spread, list_of_ne_spread spread, List.singleton_inj] at same
    exact commas_inj legible legible' (List.append_cancel_left (List.append_cancel_right same))

end Lists

end Block

theorem renderValues_inj {style : Style} {name : String} (plain : '\n' ∉ name.toList)
    {values others : List Int64} :
    renderValues style name values = renderValues style name others ↔ values = others := by
  have legible : ∀ listed : List Int64, ∀ text ∈ listed.map style.value, Legible text := by
    intro listed text member
    obtain ⟨v, -, rfl⟩ := List.mem_map.1 member
    exact style.legible_value v
  have written : ∀ listed : List Int64, renderValues style name listed =
      (Block.list style name ((listed.map style.value).map fun text => [text])).toString := by
    intro listed
    rw [List.map_map]
    rfl
  rw [written, written, Block.toString_list_inj plain (legible values) (legible others),
    List.map_inj_right fun _ _ same => style.value_injective same]

variable {T U : Layering} {π : Type} [Parent π]

/-- A machine shows a chain as the nodes are that it finds along the links. -/
theorem Machine.perform_render_chain {machine : Machine T π} {name : String} {chain : Chain T}
    (found : machine.view name = .ok (some (.chain chain))) (style : Style) :
    machine.perform (.render name none (some style)) =
      .ok (.answer (.text (chain.render style)), machine) := by
  simp only [view] at found
  split at found
  · cases found
  · obtain ⟨nodes, -, loose⟩ := exists_of_bind_eq_ok found
    cases loose
  · next first owner held =>
    obtain ⟨nodes, gathered, same⟩ := exists_of_bind_eq_ok found
    cases same
    simp only [perform, render, Machine.first, held, Holder.first, gathered, ok_bind, pure_eq_ok]

/-- In every style two chains look alike exactly if they hold the same values in the same order,
wherever their nodes stand and whichever allocators these come from. This is what a machine answers
that has such a chain to show. -/
theorem Chain.render_eq_iff (style : Style) (chain : Chain T) (other : Chain U) :
    (chain.render style = other.render style ↔ chain.values = other.values) ∧
      ∀ (machine : Machine T π) (name : String), machine.view name = .ok (some (.chain chain)) →
        machine.perform (.render name none (some style)) =
          .ok (.answer (.text (chain.render style)), machine) :=
  ⟨renderValues_inj (by decide), fun _ _ found => Machine.perform_render_chain found style⟩

/-- A chain with a negative value, shown in hexadecimal numbers, looks like no chain with others. -/
theorem Chain.render_eq_iff_fork :
    let before : List (Op .fork Arena) := [.chain "list" .attempt (some (1 : Fin 3)) [5, -6]]
    let start : Machine .fork Arena := Machine.opened (.opened (fun _ => none) (.ofCapacity 4096))
    ∃ given machine, Machine.performAll before start = .ok (given, machine) ∧
      machine.perform (.render "list" none (some .hex)) =
        .ok (.answer (.text "Chain [5, fffffffffffffffa]"), machine) ∧
      ∀ other : Chain .single, "Chain [5, fffffffffffffffa]" = other.render .hex ↔
        [5, -6] = other.values := by
  intro before start
  have lasting : start.answersAll (fun reply => reply.isAbort = false) before = true := by
    decide +kernel
  obtain ⟨given, machine, reached, -⟩ := Machine.exists_of_answersAll lasting
  let chain : Chain .fork :=
    ⟨[⟨4120, 5, some (1 : Fin 3)⟩, ⟨4096, -6, some (1 : Fin 3)⟩], some (1 : Fin 3)⟩
  have checked : (match Machine.performAll before start with
      | .ok (_, machine) => decide (machine.view "list" = .ok (some (.chain chain)))
      | .error _ => false) = true := by decide +kernel
  rw [reached] at checked
  have found := of_decide_eq_true checked
  have text : chain.render .hex = "Chain [5, fffffffffffffffa]" := by decide +kernel
  have shown := (render_eq_iff (U := .single) .hex chain (.empty none)).2 machine "list" found
  rw [text] at shown
  refine ⟨given, machine, reached, shown, fun other => ?_⟩
  have alike := (render_eq_iff (π := Arena) .hex chain other).1
  rwa [text] at alike

end ChainLedger
