import FuzzyInference.Proofs.Rule.Relevance

/-!
# Comparing degrees of relevance

A group that closes settles all pending connectives, those of the groups around it too, so operands
are joined in another order than the brackets say. Each of these is joined once, and nothing else is.
So a property that a joined clause has exactly if both of its parts have it holds of a group exactly if
it holds of all clauses; being at least, or at most, some scalar is such a property, for `and` and for
`or`. And an operand that is weighed in two ways is weighed less where all its clauses are.

* `Phrase.connectives`: the connectives of a phrase;
* `Splits`, `Gathers`, `gathers`: **what splits over a connective holds of a phrase with no other
  connective exactly if it holds of its clauses**;
* `isLeast_degree`, `isGreatest_degree`: the degrees of such groups;
* `degree_le_degree`: the degree of an operand rises with those of its clauses;
* `relevance_of_one_connective`: rules whose premise is a group with one kind of connective;
* `relevance_of_last_clauses`: the degree of relevance of any rule.
-/

namespace FuzzyInference.Rule

/-- The connectives of a phrase, in the order of the text. -/
def Phrase.connectives {n : Nonterminal} : Phrase n → List Connective
  | clause _ _ => []
  | group first c rest => first.connectives ++ c :: rest.connectives
  | single o => o.connectives
  | join o c rest => o.connectives ++ c :: rest.connectives

section
variable {α : Type} [Scalar α] {S P : α → Prop} {k : Connective} {degree degree' : Text × Text → α}

/-! ### One connective -/

/-- The property holds of what the connective joins exactly if it holds of both parts. -/
def Splits (S : α → Prop) (k : Connective) (P : α → Prop) : Prop :=
  ∀ a b : α, S a → S b → (P (k.join a b) ↔ P a ∧ P b)

/-- All that is pending stands with the connective and with a degree of the class. -/
def Uniform (S : α → Prop) (k : Connective) (pending : List (α × Connective)) : Prop :=
  ∀ e ∈ pending, S e.1 ∧ e.2 = k

theorem settle_iff (hP : Splits S k P) : ∀ {pending : List (α × Connective)} {d : α}, S d →
    Uniform S k pending →
      S (pending.foldl (fun e (d, c) => c.combine [d, e]) d) ∧
      (P (pending.foldl (fun e (d, c) => c.combine [d, e]) d) ↔ P d ∧ ∀ e ∈ pending, P e.1)
  | [], d, hd, _ => ⟨hd, by simp⟩
  | (e, c) :: pending, d, hd, hp => by
    obtain ⟨⟨he, hc⟩, hrest⟩ := List.forall_mem_cons.mp hp
    obtain rfl : k = c := hc.symm
    obtain ⟨hmem, h⟩ := settle_iff hP (k.join_mem he hd) hrest
    refine ⟨hmem, ?_⟩
    rw [List.forall_mem_cons, ← and_assoc, and_comm (a := P d), ← hP e d he hd]
    exact h

/-- Weighing the phrase keeps what is pending uniform; the property holds then of the degree and of
all that is pending exactly if it holds of the clauses and of all that was pending before. -/
def Gathers {n : Nonterminal} (S : α → Prop) (k : Connective) (P : α → Prop)
    (degree : Text × Text → α) (p : Phrase n) : Prop :=
  ∀ pending : List (α × Connective), Uniform S k pending →
    S (p.weigh degree pending).1 ∧ Uniform S k (p.weigh degree pending).2 ∧
    ((P (p.weigh degree pending).1 ∧ ∀ e ∈ (p.weigh degree pending).2, P e.1) ↔
      (∀ x ∈ p.clauses, P (degree x)) ∧ ∀ e ∈ pending, P e.1)

theorem Gathers.join {o : Phrase .operand} {rest : Phrase .row} (h₁ : Gathers S k P degree o)
    (h₂ : Gathers S k P degree rest) : Gathers S k P degree (.join o k rest) := by
  intro pending hp
  obtain ⟨hd, hp₁, hiff₁⟩ := h₁ pending hp
  have huniform : Uniform S k (((o.weigh degree pending).1, k) :: (o.weigh degree pending).2) :=
    List.forall_mem_cons.mpr ⟨⟨hd, rfl⟩, hp₁⟩
  obtain ⟨he, hp₂, hiff₂⟩ := h₂ _ huniform
  refine ⟨he, hp₂, hiff₂.trans ?_⟩
  rw [List.forall_mem_cons, hiff₁, Phrase.clauses, List.forall_mem_append, ← and_assoc,
    and_comm (a := ∀ x ∈ rest.clauses, P (degree x))]

/-- A group is the row that it holds, settled. -/
theorem Gathers.group (hP : Splits S k P) {first : Phrase .operand} {rest : Phrase .row}
    (h : Gathers S k P degree (.join first k rest)) :
    Gathers S k P degree (.group first k rest) := by
  intro pending hp
  obtain ⟨hd, hp, hiff⟩ := h pending hp
  obtain ⟨he, hsettle⟩ := settle_iff hP hd hp
  refine ⟨he, List.forall_mem_nil _, ?_⟩
  have hnone : ∀ e ∈ ([] : List (α × Connective)), P e.1 := List.forall_mem_nil _
  exact (and_iff_left hnone).trans (hsettle.trans hiff)

/-- **What splits over the only connective of a phrase is gathered by it.** -/
theorem gathers (hP : Splits S k P) {n : Nonterminal} (p : Phrase n) :
    (∀ j ∈ p.connectives, j = k) → (∀ x ∈ p.clauses, S (degree x)) → Gathers S k P degree p := by
  induction p with
  | clause x a =>
    intro _ hS pending hp
    exact ⟨hS (x, a) List.mem_cons_self, hp, by simp [Phrase.weigh, Phrase.clauses]⟩
  | group first c rest ih₁ ih₂ =>
    intro hk hS
    obtain ⟨hk₁, hk⟩ := List.forall_mem_append.mp hk
    obtain ⟨hc, hk₂⟩ := List.forall_mem_cons.mp hk
    obtain ⟨hS₁, hS₂⟩ := List.forall_mem_append.mp hS
    obtain rfl := hc.symm
    exact Gathers.group hP ((ih₁ hk₁ hS₁).join (ih₂ hk₂ hS₂))
  | single o ih => exact ih
  | join o c rest ih₁ ih₂ =>
    intro hk hS
    obtain ⟨hk₁, hk⟩ := List.forall_mem_append.mp hk
    obtain ⟨hc, hk₂⟩ := List.forall_mem_cons.mp hk
    obtain ⟨hS₁, hS₂⟩ := List.forall_mem_append.mp hS
    obtain rfl := hc.symm
    exact (ih₁ hk₁ hS₁).join (ih₂ hk₂ hS₂)

section
variable {o : Phrase .operand}

/-- It holds of an operand outside all groups exactly if it holds of its clauses. -/
theorem degree_iff (hP : Splits S k P) (hk : ∀ j ∈ o.connectives, j = k)
    (hS : ∀ x ∈ o.clauses, S (degree x)) :
    P (o.degree degree) ↔ ∀ x ∈ o.clauses, P (degree x) := by
  have hnone : ∀ e ∈ ([] : List (α × Connective)), P e.1 := List.forall_mem_nil _
  obtain ⟨-, -, hiff⟩ := gathers hP o hk hS [] (List.forall_mem_nil _)
  rw [weigh_nil] at hiff
  exact (and_iff_left hnone).symm.trans (hiff.trans (and_iff_left hnone))

/-- The degree of an operand is one of the degrees of its clauses. -/
theorem degree_mem (degree : Text × Text → α) (o : Phrase .operand) :
    o.degree degree ∈ o.clauses.map degree :=
  degree_induction fun _ hx => List.mem_map_of_mem hx

/-- **Where all connectives are `and`** the degree is the least one. -/
theorem isLeast_degree (h : Scalar.Ordered S) (hk : ∀ j ∈ o.connectives, j = .and)
    (hS : ∀ x ∈ o.clauses, S (degree x)) :
    Scalar.IsLeast (o.clauses.map degree) (o.degree degree) := by
  have hd := degree_induction hS
  have hsplits : Splits S .and fun a => Scalar.le (o.degree degree) a = true :=
    fun _ _ ha hb => h.le_smaller_iff ha hb hd
  exact ⟨degree_mem degree o,
    List.forall_mem_map.mpr ((degree_iff hsplits hk hS).mp (h.refl hd))⟩

/-- **Where all connectives are `or`** the degree is the greatest one. -/
theorem isGreatest_degree (h : Scalar.Ordered S) (hk : ∀ j ∈ o.connectives, j = .or)
    (hS : ∀ x ∈ o.clauses, S (degree x)) :
    Scalar.IsGreatest (o.clauses.map degree) (o.degree degree) := by
  have hd := degree_induction hS
  have hsplits : Splits S .or fun a => Scalar.le a (o.degree degree) = true :=
    fun _ _ ha hb => h.greater_le_iff ha hb hd
  exact ⟨degree_mem degree o,
    List.forall_mem_map.mpr ((degree_iff hsplits hk hS).mp (h.refl hd))⟩

end

/-! ### Degrees that rise -/

/-- **The degree of an operand rises with the degrees of its clauses.** -/
theorem degree_le_degree (h : Scalar.Ordered S) {o : Phrase .operand}
    (hle : ∀ x ∈ o.clauses,
      (S (degree x) ∧ S (degree' x)) ∧ Scalar.le (degree x) (degree' x) = true) :
    Scalar.le (o.degree degree) (o.degree degree') = true := by
  have hjoin : ∀ (k : Connective) {a b a' b' : α},
      (S a ∧ S a') ∧ Scalar.le a a' = true → (S b ∧ S b') ∧ Scalar.le b b' = true →
        (S (k.join a b) ∧ S (k.join a' b')) ∧ Scalar.le (k.join a b) (k.join a' b') = true :=
    fun k _ _ _ _ ⟨⟨ha, ha'⟩, haa'⟩ ⟨⟨hb, hb'⟩, hbb'⟩ =>
      ⟨⟨k.join_mem ha hb, k.join_mem ha' hb'⟩, h.join_le_join k ha hb ha' hb' haa' hbb'⟩
  exact (degree_related (R := fun a a' => (S a ∧ S a') ∧ Scalar.le a a' = true) hjoin hle).2

/-! ### Rules -/

/-- What a table that accepts a rule says about it ever after: the degrees of its clauses, and its own
degree. -/
theorem relevance_of_done {t : SymbolTable α} {text : Text} {p : Phrase .row} {c : LooseRow}
    (h : ((ofText text true).parse (some t.vocabulary)).status = .done)
    (hws : (ofText text true).lexemes = sentence p c) (cs : List (SymbolTable.Change α)) :
    (∀ x ∈ p.lastOperand.clauses,
      clauseDegree (t.run cs) x.1 x.2 = .ok ((t.run cs).degree x)) ∧
    ((ofText text true).parse (some t.vocabulary)).relevance (t.run cs) =
      .ok (p.lastOperand.degree (t.run cs).degree) := by
  have hdef := defines_of_done h hws cs
  obtain ⟨hread, -⟩ := (parse_of_done h).2 p c hws
  refine ⟨fun x hx => clauseDegree_eq (hdef x ?_), ?_⟩
  · exact Phrase.mem_clauses_of_operand p.lastOperand_mem hx
  · rw [hread]
    exact relevance_readAs c hdef

/-- The degree of relevance is no less in a table in which the degrees of the last clauses are not. -/
theorem relevance_le_relevance {t : SymbolTable α} {text : Text} {p : Phrase .row} {c : LooseRow}
    (h : ((ofText text true).parse (some t.vocabulary)).status = .done)
    (hws : (ofText text true).lexemes = sentence p c) {cs ds : List (SymbolTable.Change α)}
    (hordered : Scalar.Ordered S)
    (hle : ∀ x ∈ p.lastOperand.clauses, ∃ a b, clauseDegree (t.run cs) x.1 x.2 = .ok a ∧
      clauseDegree (t.run ds) x.1 x.2 = .ok b ∧ S a ∧ S b ∧ Scalar.le a b = true) :
    ∃ a b, ((ofText text true).parse (some t.vocabulary)).relevance (t.run cs) = .ok a ∧
      ((ofText text true).parse (some t.vocabulary)).relevance (t.run ds) = .ok b ∧
      Scalar.le a b = true := by
  obtain ⟨hclauses, hrelevance⟩ := relevance_of_done h hws cs
  obtain ⟨hclauses', hrelevance'⟩ := relevance_of_done h hws ds
  have hdegrees : ∀ x ∈ p.lastOperand.clauses,
      (S ((t.run cs).degree x) ∧ S ((t.run ds).degree x)) ∧
        Scalar.le ((t.run cs).degree x) ((t.run ds).degree x) = true := by
    intro x hx
    obtain ⟨a, b, ha, hb, hSa, hSb, hab⟩ := hle x hx
    obtain rfl := Except.ok.inj ((hclauses x hx).symm.trans ha)
    obtain rfl := Except.ok.inj ((hclauses' x hx).symm.trans hb)
    exact ⟨⟨hSa, hSb⟩, hab⟩
  exact ⟨_, _, hrelevance, hrelevance', degree_le_degree hordered hdegrees⟩

end

/-- **With one kind of connective brackets do not matter.** The degree of relevance of a rule whose
premise is a group, however it nests, is the least of the degrees of its clauses if all connectives in
it are `and`, and the greatest of them if all are `or`, provided that these degrees are in order.
Doubles that are numbers are. -/
theorem relevance_of_one_connective (text : Text) {first : Phrase .operand} {k : Connective}
    {rest : Phrase .row} {c : LooseRow} :
    let group := Phrase.group first k rest
    (∀ {α : Type} [Scalar α] {S : α → Prop} (t : SymbolTable α) (cs : List (SymbolTable.Change α)),
      let rule := (ofText text true).parse (some t.vocabulary)
      let degrees := group.clauses.map (t.run cs).degree
      rule.status = .done → rule.lexemes = sentence (.single group) c →
        Scalar.Ordered S → (∀ d ∈ degrees, S d) →
        (∀ x ∈ group.clauses, clauseDegree (t.run cs) x.1 x.2 = .ok ((t.run cs).degree x)) ∧
        ∃ h, rule.relevance (t.run cs) = .ok h ∧
          ((∀ j ∈ group.connectives, j = .and) → Scalar.IsLeast degrees h) ∧
          ((∀ j ∈ group.connectives, j = .or) → Scalar.IsGreatest degrees h)) ∧
    Scalar.Ordered fun x : Float => x.isNaN = false := by
  intro group
  constructor
  · intro α _ S t cs rule degrees h hws hordered hdegrees
    have hS : ∀ x ∈ group.clauses, S ((t.run cs).degree x) := List.forall_mem_map.mp hdegrees
    obtain ⟨hclauses, hrelevance⟩ := relevance_of_done h hws cs
    exact ⟨hclauses, _, hrelevance, fun hk => isLeast_degree hordered hk hS,
      fun hk => isGreatest_degree hordered hk hS⟩
  · exact ordered_doubles

/-- A group in the middle of a group, with clauses of two degrees. -/
theorem relevance_of_ands :
    let f : Membership Exact := ⟨.number 0, .number 1, .number 1, .number 2, .number 1⟩
    let g : Membership Exact := ⟨.number 0, .number 2, .number 2, .number 4, .number 1⟩
    let t : SymbolTable Exact := ⟨[⟨"x", .input, [("a", f), ("b", g)], .number (1 / 2)⟩], true⟩
    let rule := (ofText "if (x is a and (x is b and x is a) and x is a) then x is a" true).parse
      (some t.vocabulary)
    rule.status = .done ∧ rule.relevance t = .ok (.number (1 / 4)) := by
  intro f g t
  obtain ⟨hdone, hws⟩ :
      ((ofText "if (x is a and (x is b and x is a) and x is a) then x is a" true).parse
        (some t.vocabulary)).status = .done ∧
      ((ofText "if (x is a and (x is b and x is a) and x is a) then x is a" true).parse
        (some t.vocabulary)).lexemes =
        sentence (.single (.group (.clause "x" "a") .and
          (.join (.group (.clause "x" "b") .and (.single (.clause "x" "a"))) .and
            (.single (.clause "x" "a"))))) (.single (.clause "x" "a")) :=
    done_of_plain (by decide +kernel) (by decide +kernel) (by decide +kernel) (by decide +kernel)
  have ha : t.degree ("x", "a") = .number (1 / 2) := by decide +kernel
  have hb : t.degree ("x", "b") = .number (1 / 4) := by decide +kernel
  have hdegrees : ([("x", "a"), ("x", "b"), ("x", "a"), ("x", "a")] : List (Text × Text)).map
      t.degree = [.number (1 / 2), .number (1 / 4), .number (1 / 2), .number (1 / 2)] := by
    simp only [List.map_cons, List.map_nil, ha, hb]
  obtain ⟨-, h, hrelevance, hleast, -⟩ := (relevance_of_one_connective
    "if (x is a and (x is b and x is a) and x is a) then x is a").1 t [] hdone hws Exact.ordered
      (hdegrees ▸ by simp)
  obtain ⟨hmem, hle⟩ : Scalar.IsLeast [.number (1 / 2), .number (1 / 4), .number (1 / 2),
      .number (1 / 2)] h := hdegrees ▸ hleast (by decide)
  have hquarter : Scalar.le h (.number (1 / 4)) = true := hle _ (by simp)
  obtain rfl | rfl : h = .number (1 / 2) ∨ h = .number (1 / 4) := by
    simp only [List.mem_cons, List.not_mem_nil] at hmem
    tauto
  · exact absurd hquarter (by decide +kernel)
  · exact ⟨hdone, hrelevance⟩

/-- **The degree of relevance of any rule** that a table accepts is that of one of the clauses of its
last operand, whatever has been done to the table since. It rises with the degrees of these clauses:
where they are in order, and none is less in one table than in another one, the rule's is not. Doubles
that are compared are in order. -/
theorem relevance_of_last_clauses (text : Text) :
    (∀ {α : Type} [Scalar α] (t : SymbolTable α),
      let rule := (ofText text true).parse (some t.vocabulary)
      rule.status = .done →
        (∃ p c, rule.lexemes = sentence p c) ∧
        ∀ p c, rule.lexemes = sentence p c →
          (∀ cs, ∃ x ∈ p.lastOperand.clauses, ∃ d,
            clauseDegree (t.run cs) x.1 x.2 = .ok d ∧ rule.relevance (t.run cs) = .ok d) ∧
          ∀ {S : α → Prop} (cs ds : List (SymbolTable.Change α)), Scalar.Ordered S →
            (∀ x ∈ p.lastOperand.clauses, ∃ a b, clauseDegree (t.run cs) x.1 x.2 = .ok a ∧
              clauseDegree (t.run ds) x.1 x.2 = .ok b ∧ S a ∧ S b ∧ Scalar.le a b = true) →
            ∃ a b, rule.relevance (t.run cs) = .ok a ∧ rule.relevance (t.run ds) = .ok b ∧
              Scalar.le a b = true) ∧
    ∀ (t : SymbolTable Float) (p : Phrase .row) (c : LooseRow),
      let rule := (ofText text true).parse (some t.vocabulary)
      rule.status = .done → rule.lexemes = sentence p c →
        ∀ cs ds, (∀ x ∈ p.lastOperand.clauses, ∃ a b, clauseDegree (t.run cs) x.1 x.2 = .ok a ∧
            clauseDegree (t.run ds) x.1 x.2 = .ok b ∧ a ≤ b) →
          ∃ a b, rule.relevance (t.run cs) = .ok a ∧ rule.relevance (t.run ds) = .ok b ∧ a ≤ b := by
  constructor
  · intro α _ t rule h
    refine ⟨(parse_of_done h).1, fun p c hws => ⟨fun cs => ?_, fun {S} cs ds hordered hle =>
      relevance_le_relevance h hws hordered hle⟩⟩
    obtain ⟨hclauses, hrelevance⟩ := relevance_of_done h hws cs
    obtain ⟨x, hx, hd⟩ := List.mem_map.mp (degree_mem (t.run cs).degree p.lastOperand)
    exact ⟨x, hx, _, hclauses x hx, hd ▸ hrelevance⟩
  · intro t p c rule h hws cs ds hle
    obtain ⟨a, b, ha, hb, hab⟩ := relevance_le_relevance h hws ordered_doubles
      fun x hx => by
        obtain ⟨a, b, ha, hb, hab⟩ := hle x hx
        have hab : Scalar.le a b = true := decide_eq_true hab
        obtain ⟨hna, hnb⟩ := isNaN_of_le hab
        exact ⟨a, b, ha, hb, hna, hnb, hab⟩
    exact ⟨a, b, ha, hb, of_decide_eq_true hab⟩

/-- A rule with both connectives in its last operand, at two values of its variable. -/
theorem relevance_of_two_values :
    let f : Membership Exact := ⟨.number 0, .number 1, .number 1, .number 2, .number 1⟩
    let g : Membership Exact := ⟨.number 0, .number 2, .number 2, .number 4, .number 1⟩
    let t : SymbolTable Exact := ⟨[⟨"x", .input, [("a", f), ("b", g)], .number 0⟩], true⟩
    let rule := (ofText "if x is b or (x is a and (x is b or x is a)) then x is a" true).parse
      (some t.vocabulary)
    let changed (q : ℚ) := t.run [.setValue "X" (.number q)]
    rule.status = .done ∧ ∃ a b, rule.relevance (changed (1 / 4)) = .ok a ∧
      rule.relevance (changed (1 / 2)) = .ok b ∧ Scalar.le a b = true := by
  intro f g t
  obtain ⟨hdone, hws⟩ :
      ((ofText "if x is b or (x is a and (x is b or x is a)) then x is a" true).parse
        (some t.vocabulary)).status = .done ∧
      ((ofText "if x is b or (x is a and (x is b or x is a)) then x is a" true).parse
        (some t.vocabulary)).lexemes =
        sentence (.join (.clause "x" "b") .or (.single (.group (.clause "x" "a") .and (.single
          (.group (.clause "x" "b") .or (.single (.clause "x" "a"))))))) (.single (.clause "x" "a")) :=
    done_of_plain (by decide +kernel) (by decide +kernel) (by decide +kernel) (by decide +kernel)
  obtain ⟨-, hall⟩ := (relevance_of_last_clauses
    "if x is b or (x is a and (x is b or x is a)) then x is a").1 t hdone
  obtain ⟨-, hrises⟩ := hall _ _ hws
  refine ⟨hdone, hrises _ _ Exact.ordered ?_⟩
  have ha : ∃ a b : ℚ, (t.run [.setValue "X" (.number (1 / 4))]).degree ("x", "a") = .number a ∧
      (t.run [.setValue "X" (.number (1 / 2))]).degree ("x", "a") = .number b ∧ a ≤ b :=
    ⟨1 / 4, 1 / 2, by decide +kernel⟩
  have hb : ∃ a b : ℚ, (t.run [.setValue "X" (.number (1 / 4))]).degree ("x", "b") = .number a ∧
      (t.run [.setValue "X" (.number (1 / 2))]).degree ("x", "b") = .number b ∧ a ≤ b :=
    ⟨1 / 8, 1 / 4, by decide +kernel⟩
  have hclauses : ∀ x ∈ ([("x", "a"), ("x", "b"), ("x", "a")] : List (Text × Text)), ∃ a b : ℚ,
      (t.run [.setValue "X" (.number (1 / 4))]).degree x = .number a ∧
        (t.run [.setValue "X" (.number (1 / 2))]).degree x = .number b ∧ a ≤ b :=
    List.forall_mem_cons.mpr
      ⟨ha, List.forall_mem_cons.mpr ⟨hb, List.forall_mem_singleton.mpr ha⟩⟩
  intro x hx
  obtain ⟨a, b, ha, hb, hab⟩ := hclauses x hx
  exact ⟨_, _, (relevance_of_done hdone hws _).1 x hx, (relevance_of_done hdone hws _).1 x hx,
    ⟨a, ha⟩, ⟨b, hb⟩, by rw [ha, hb]; exact Exact.le_number.mpr hab⟩

end FuzzyInference.Rule
