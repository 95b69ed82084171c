import FuzzyInference.Proofs.Order
import FuzzyInference.Proofs.Rule.Vocabulary
import FuzzyInference.Rule.Evaluation

/-!
# Degrees of relevance

The connectives that are held back while a phrase is read belong to operands whose degrees are on
the stack while it is evaluated, the newest on top. So a phrase can be weighed in the way in which
it is emitted, each held connective together with the degree of its left operand (`Phrase.weigh`);
and what is emitted evaluates to what is weighed, whatever the rest of the stack.

* `Phrase.weigh`: the degree of a phrase, from the degrees of its clauses;
* `evaluate_emit`: evaluating what is emitted puts the degree on the stack in place of the degrees
  whose connectives have been let go;
* `evaluate_postfixForm`, `relevance_readAs`: a premise leaves the degrees of its operands, and the
  degree of the last one is the degree of relevance;
* `Related`, `weigh_related`: **weighing a phrase twice**, by degrees that are related;
  `degree_induction`, `degree_congr`: what holds of the degrees of clauses holds of that of the operand;
* `relevance_of_changes`: a rule that a table accepts can be evaluated over it ever after.
-/

namespace FuzzyInference

variable {α : Type} [Scalar α]

/-- The degree of a clause at the crisp values of the table, zero if the table does not define
it. -/
def SymbolTable.degree (t : SymbolTable α) (x : Text × Text) : α :=
  match Rule.clauseDegree t x.1 x.2 with
  | .ok d => d
  | .error _ => Scalar.zero

namespace Rule

variable {t : SymbolTable α}

theorem clauseDegree_of_defines {x : Text × Text} (h : t.Defines x) :
    ∃ v f, t.find? x.1 = some v ∧ v.term? x.2 = some f ∧
      clauseDegree t x.1 x.2 = .ok (f.degree v.value) := by
  obtain ⟨v, hv, hx⟩ := h
  obtain ⟨f, hf⟩ := Option.isSome_iff_exists.mp hx
  refine ⟨v, f, hv, hf, ?_⟩
  unfold clauseDegree Variable.fuzzify
  rw [hv]
  dsimp only
  rw [hf]

theorem clauseDegree_eq {x : Text × Text} (h : t.Defines x) :
    clauseDegree t x.1 x.2 = .ok (t.degree x) := by
  obtain ⟨v, f, -, -, hd⟩ := clauseDegree_of_defines h
  unfold SymbolTable.degree
  rw [hd]

/-! ### Weighing -/

/-- The degree of a phrase, from the degrees of the clauses. Each pending connective stands with the
degree of its left operand, newest first; a group that closes settles all of them. -/
def Phrase.weigh {n : Nonterminal} (degree : Text × Text → α) :
    Phrase n → List (α × Connective) → α × List (α × Connective)
  | clause x a, pending => (degree (x, a), pending)
  | group first c rest, pending =>
    let (d, pending) := first.weigh degree pending
    let (e, pending) := rest.weigh degree ((d, c) :: pending)
    (pending.foldl (fun e (d, c) => c.combine [d, e]) e, [])
  | single o, pending => o.weigh degree pending
  | join o c rest, pending =>
    let (d, pending) := o.weigh degree pending
    rest.weigh degree ((d, c) :: pending)

/-- The degree of an operand outside all groups. -/
def Phrase.degree (degree : Text × Text → α) (o : Phrase .operand) : α := (o.weigh degree []).1

/-- What is held is what is pending. -/
theorem held_emit {n : Nonterminal} (degree : Text × Text → α) (p : Phrase n) :
    ∀ pending : List (α × Connective),
      (p.emit (pending.map Prod.snd)).2 = (p.weigh degree pending).2.map Prod.snd := by
  induction p with
  | clause x a =>
    intro pending
    rfl
  | group first c rest ih₁ ih₂ =>
    intro pending
    rfl
  | single o ih =>
    intro pending
    exact ih pending
  | join o c rest ih₁ ih₂ =>
    intro pending
    simp only [Phrase.emit, Phrase.weigh]
    rw [ih₁]
    exact ih₂ (((o.weigh degree pending).1, c) :: (o.weigh degree pending).2)

/-- Connectives that are let go join what is pending with the degree on top, newest first. -/
theorem evaluate_connectives : ∀ (pending : List (α × Connective)) (before : List Entry) (d : α)
    (stack : List α) (rest : List Entry),
    ∃ before', evaluate t before (d :: (pending.map Prod.fst ++ stack))
        ((pending.map Prod.snd).map .connective ++ rest) =
      evaluate t before' (pending.foldl (fun e (d, c) => c.combine [d, e]) d :: stack) rest
  | [], before, _, _, _ => ⟨before, rfl⟩
  | (e, c) :: pending, before, d, stack, rest => by
    obtain ⟨before', h⟩ := evaluate_connectives pending (.connective c :: before)
      (c.combine [e, d]) stack rest
    exact ⟨before', h⟩

/-- **Evaluating what a phrase emits.** -/
theorem evaluate_emit {n : Nonterminal} (p : Phrase n) (hdef : ∀ x ∈ p.clauses, t.Defines x) :
    ∀ (pending : List (α × Connective)) (before : List Entry) (stack : List α)
      (rest : List Entry),
      ∃ before', evaluate t before (pending.map Prod.fst ++ stack)
          ((p.emit (pending.map Prod.snd)).1 ++ rest) =
        evaluate t before' ((p.weigh t.degree pending).1 ::
          ((p.weigh t.degree pending).2.map Prod.fst ++ stack)) rest := by
  induction p with
  | clause x a =>
    intro pending before stack rest
    have hd := clauseDegree_eq (hdef (x, a) (by simp [Phrase.clauses]))
    refine ⟨.is :: .name a :: .name x :: before, ?_⟩
    simp only [Phrase.emit, List.cons_append, List.nil_append]
    rw [evaluate, evaluate, evaluate]
    simp only [hd]
    rfl
  | group first c rest ih₁ ih₂ =>
    intro pending before stack after
    simp only [Phrase.clauses, List.mem_append] at hdef
    set w₁ := first.weigh t.degree pending
    set w₂ := rest.weigh t.degree ((w₁.1, c) :: w₁.2)
    -- What is emitted behind a part depends on what is held there, which is what is pending.
    have held₁ : (first.emit (pending.map Prod.snd)).2 = w₁.2.map Prod.snd :=
      held_emit t.degree first pending
    have held₂ : (rest.emit (c :: w₁.2.map Prod.snd)).2 = w₂.2.map Prod.snd :=
      held_emit t.degree rest ((w₁.1, c) :: w₁.2)
    obtain ⟨before₁, h₁⟩ := ih₁ (fun x hx => hdef x (Or.inl hx)) pending before stack
      ((rest.emit (c :: w₁.2.map Prod.snd)).1 ++
        ((w₂.2.map Prod.snd).map .connective ++ after))
    obtain ⟨before₂, h₂⟩ := ih₂ (fun x hx => hdef x (Or.inr hx)) ((w₁.1, c) :: w₁.2) before₁ stack
      ((w₂.2.map Prod.snd).map .connective ++ after)
    obtain ⟨before₃, h₃⟩ := evaluate_connectives (t := t) w₂.2 before₂ w₂.1 stack after
    refine ⟨before₃, ?_⟩
    simp only [Phrase.emit, List.append_assoc]
    rw [held₁, held₂]
    exact h₁.trans (h₂.trans h₃)
  | single o ih =>
    intro pending before stack rest
    exact ih hdef pending before stack rest
  | join o c rest ih₁ ih₂ =>
    intro pending before stack after
    simp only [Phrase.clauses, List.mem_append] at hdef
    set w₁ := o.weigh t.degree pending
    have held₁ : (o.emit (pending.map Prod.snd)).2 = w₁.2.map Prod.snd :=
      held_emit t.degree o pending
    obtain ⟨before₁, h₁⟩ := ih₁ (fun x hx => hdef x (Or.inl hx)) pending before stack
      ((rest.emit (c :: w₁.2.map Prod.snd)).1 ++ after)
    obtain ⟨before₂, h₂⟩ := ih₂ (fun x hx => hdef x (Or.inr hx)) ((w₁.1, c) :: w₁.2) before₁ stack
      after
    refine ⟨before₂, ?_⟩
    simp only [Phrase.emit, List.append_assoc]
    rw [held₁]
    exact h₁.trans h₂

/-- Nothing is pending behind an operand outside all groups. -/
theorem weigh_nil (degree : Text × Text → α) (o : Phrase .operand) :
    (o.weigh degree []).2 = [] := by
  cases o <;> rfl

/-- An operand outside all groups puts its degree on the stack. -/
theorem evaluate_operand {o : Phrase .operand} (hdef : ∀ x ∈ o.clauses, t.Defines x)
    (before : List Entry) (stack : List α) (rest : List Entry) :
    ∃ before', evaluate t before stack ((o.emit []).1 ++ rest) =
      evaluate t before' (o.degree t.degree :: stack) rest := by
  obtain ⟨before', h⟩ := evaluate_emit o hdef [] before stack rest
  rw [weigh_nil, List.map_nil, List.map_nil, List.nil_append] at h
  exact ⟨before', h⟩

/-- **What a premise leaves on the stack**: the degrees of its operands, the last one on top. -/
theorem evaluate_operands : ∀ {os : List (Phrase .operand)},
    (∀ o ∈ os, ∀ x ∈ o.clauses, t.Defines x) → ∀ (before : List Entry) (stack : List α),
      evaluate t before stack (os.flatMap fun o => (o.emit []).1) =
        .ok ((os.map (Phrase.degree t.degree)).reverse ++ stack)
  | [], _, _, _ => rfl
  | o :: os, hdef, before, stack => by
    obtain ⟨before', h⟩ := evaluate_operand (hdef o (by simp)) before stack
      (os.flatMap fun o => (o.emit []).1)
    have hos : ∀ o ∈ os, ∀ x ∈ o.clauses, t.Defines x := fun o ho => hdef o (by simp [ho])
    rw [List.flatMap_cons, h, evaluate_operands hos]
    simp

/-- The last operand of a phrase outside all groups. -/
def Phrase.lastOperand {n : Nonterminal} : Phrase n → Phrase .operand
  | clause x a => clause x a
  | group first c rest => group first c rest
  | single o => o
  | join _ _ rest => rest.lastOperand

theorem Phrase.exists_operands {n : Nonterminal} (p : Phrase n) :
    ∃ os, p.operands = os ++ [p.lastOperand] := by
  induction p with
  | clause x a => exact ⟨[], rfl⟩
  | group first c rest ih₁ ih₂ => exact ⟨[], rfl⟩
  | single o ih => exact ⟨[], rfl⟩
  | join o c rest ih₁ ih₂ =>
    obtain ⟨os, h⟩ := ih₂
    refine ⟨o :: os, ?_⟩
    simp only [operands, lastOperand, List.cons_append]
    rw [h]

theorem Phrase.mem_clauses_of_operand {n : Nonterminal} {p : Phrase n} {o : Phrase .operand}
    {x : Text × Text} (ho : o ∈ p.operands) (hx : x ∈ o.clauses) : x ∈ p.clauses := by
  rw [← p.flatMap_operands]
  exact List.mem_flatMap.mpr ⟨o, ho, hx⟩

theorem Phrase.lastOperand_mem {n : Nonterminal} (p : Phrase n) : p.lastOperand ∈ p.operands := by
  obtain ⟨os, h⟩ := p.exists_operands
  rw [h]
  simp

/-- **Evaluating a premise** leaves one degree for each operand, and the last one is on top. -/
theorem evaluate_postfixForm {p : Phrase .row} (hdef : ∀ x ∈ p.clauses, t.Defines x) :
    ∃ below, evaluate t [] [] p.postfixForm = .ok (p.lastOperand.degree t.degree :: below) ∧
      below.length + 1 = p.operands.length := by
  obtain ⟨os, hos⟩ := p.exists_operands
  have hoperands : ∀ o ∈ p.operands, ∀ x ∈ o.clauses, t.Defines x := fun o ho x hx =>
    hdef x (Phrase.mem_clauses_of_operand ho hx)
  have heval := evaluate_operands hoperands [] []
  refine ⟨(os.map (Phrase.degree t.degree)).reverse, ?_, ?_⟩
  · unfold Phrase.postfixForm
    rw [heval, hos]
    simp
  · rw [hos]
    simp

/-- A rule in order is asked for its degree of relevance: the degree on top of the stack. -/
theorem relevance_of_evaluate {r : Rule} {h : α} {below : List α} (hdone : r.status = .done)
    (hattached : r.attached = true) (heval : evaluate t [] [] r.premise = .ok (h :: below)) :
    r.relevance t = .ok h := by
  have hready : r.ready .relevance = (.ok () : Except (Fault α) Unit) := by
    unfold ready
    rw [hdone, hattached]
    rfl
  unfold relevance
  rw [hready]
  dsimp only
  rw [heval]

/-- **The degree of relevance of a rule** over a table that defines the clauses of its premise. -/
theorem relevance_readAs {text : Text} {p : Phrase .row} (c : LooseRow)
    (hdef : ∀ x ∈ p.clauses, t.Defines x) :
    (readAs text true p c).relevance t = .ok (p.lastOperand.degree t.degree) := by
  obtain ⟨below, heval, -⟩ := evaluate_postfixForm hdef
  exact relevance_of_evaluate rfl rfl heval

/-! ### Weighing twice -/

section
variable {R : α → α → Prop} {Q : α → Prop} {degree degree' : Text × Text → α} {o : Phrase .operand}

/-- What is pending in two weighings: related degrees with the same connectives. -/
def Related (R : α → α → Prop) (pending pending' : List (α × Connective)) : Prop :=
  List.Forall₂ (fun e e' => R e.1 e'.1 ∧ e.2 = e'.2) pending pending'

omit [Scalar α] in
theorem Related.cons {pending pending' : List (α × Connective)} {d d' : α}
    (hp : Related R pending pending') (hd : R d d') (c : Connective) :
    Related R ((d, c) :: pending) ((d', c) :: pending') :=
  List.Forall₂.cons ⟨hd, rfl⟩ hp

theorem settle_related (hR : ∀ (k : Connective) {a b a' b' : α}, R a a' → R b b' →
    R (k.join a b) (k.join a' b')) {pending pending' : List (α × Connective)}
    (hp : Related R pending pending') : ∀ {d d' : α}, R d d' →
      R (pending.foldl (fun e (d, c) => c.combine [d, e]) d)
        (pending'.foldl (fun e (d, c) => c.combine [d, e]) d') := by
  induction hp with
  | nil => exact fun hd => hd
  | @cons e e' _ _ he _ ih =>
    intro d d' hd
    obtain ⟨a, c⟩ := e
    obtain ⟨a', c'⟩ := e'
    obtain ⟨ha, rfl⟩ : R a a' ∧ c = c' := he
    exact ih (hR c ha hd)

/-- **Weighing a phrase twice**, by degrees that are related for each of its clauses, gives related
degrees, if joining does. -/
theorem weigh_related (hR : ∀ (k : Connective) {a b a' b' : α}, R a a' → R b b' →
    R (k.join a b) (k.join a' b')) {n : Nonterminal} (p : Phrase n) :
    (∀ x ∈ p.clauses, R (degree x) (degree' x)) →
      ∀ pending pending' : List (α × Connective), Related R pending pending' →
        R (p.weigh degree pending).1 (p.weigh degree' pending').1 ∧
          Related R (p.weigh degree pending).2 (p.weigh degree' pending').2 := by
  induction p with
  | clause x a => exact fun hx _ _ hp => ⟨hx (x, a) List.mem_cons_self, hp⟩
  | group first c rest ih₁ ih₂ =>
    intro hx pending pending' hp
    obtain ⟨hx₁, hx₂⟩ := List.forall_mem_append.mp hx
    obtain ⟨hd, hp₁⟩ := ih₁ hx₁ pending pending' hp
    obtain ⟨he, hp₂⟩ := ih₂ hx₂ _ _ (hp₁.cons hd c)
    exact ⟨settle_related hR hp₂ he, .nil⟩
  | single o ih => exact ih
  | join o c rest ih₁ ih₂ =>
    intro hx pending pending' hp
    obtain ⟨hx₁, hx₂⟩ := List.forall_mem_append.mp hx
    obtain ⟨hd, hp₁⟩ := ih₁ hx₁ pending pending' hp
    exact ih₂ hx₂ _ _ (hp₁.cons hd c)

theorem degree_related (hR : ∀ (k : Connective) {a b a' b' : α}, R a a' → R b b' →
    R (k.join a b) (k.join a' b')) (h : ∀ x ∈ o.clauses, R (degree x) (degree' x)) :
    R (o.degree degree) (o.degree degree') :=
  (weigh_related hR o h [] [] .nil).1

/-- **What holds of the degrees of clauses holds of the degree of an operand**, for this is one of
those. -/
theorem degree_induction (hclauses : ∀ x ∈ o.clauses, Q (degree x)) : Q (o.degree degree) := by
  let R : α → α → Prop := fun a _ => Q a
  have hR : R (o.degree degree) (o.degree degree) :=
    degree_related (fun k _ _ _ _ ha hb => k.join_mem (S := Q) ha hb) hclauses
  exact hR

/-- An operand is weighed by the degrees of its own clauses. -/
theorem degree_congr (h : ∀ x ∈ o.clauses, degree x = degree' x) :
    o.degree degree = o.degree degree' :=
  degree_related (R := Eq) (fun k _ _ _ _ ha hb => congrArg₂ k.join ha hb) h

end

/-- On exact numbers the degree of a clause is a number between zero and one. -/
theorem clause_within {t : SymbolTable Exact} (ht : t.Valid) {x : Text × Text}
    (hx : t.Defines x) : ∃ q : ℚ, t.degree x = .number q ∧ 0 ≤ q ∧ q ≤ 1 := by
  obtain ⟨v, f, hv, hf, hd⟩ := clauseDegree_of_defines hx
  have hvalid : f.Valid := Variable.valid_of_term? (SymbolTable.valid_of_find? ht hv) hf
  obtain ⟨h, q, -, hq, h0, hqh, h1⟩ := hvalid.degree_within v.value
  have hdegree := clauseDegree_eq hx
  rw [hd, hq] at hdegree
  exact ⟨q, (Except.ok.inj hdegree).symm, h0, hqh.trans h1⟩

/-! ### Rules over tables that change -/

/-- A table that accepts a rule defines the clauses of its premise, and goes on to do so. -/
theorem defines_of_done {α : Type} {t : SymbolTable α} {text : Text} {attached : Bool}
    {p : Phrase .row} {c : LooseRow}
    (h : ((ofText text attached).parse (some t.vocabulary)).status = .done)
    (hws : (ofText text attached).lexemes = sentence p c) (cs : List (SymbolTable.Change α)) :
    ∀ x ∈ p.clauses, (t.run cs).Defines x := by
  intro x hx
  obtain ⟨-, hread⟩ := parse_of_done h
  have hdef := findSome?_eq_none_iff.mp (hread p c hws).2
  exact SymbolTable.defines_run (hdef x (List.mem_append_left _ hx)) cs

/-- **A rule that a table accepts can be evaluated over it ever after**: whatever is registered,
added, set or frozen in between, evaluation leaves one degree for each operand of the premise
outside all groups, and the degree of relevance is the one on top. On exact numbers, with valid
functions in the table and the changes, it lies between zero and one. -/
theorem relevance_of_changes (text : Text) :
    (∀ {α : Type} [Scalar α] (t : SymbolTable α) (cs : List (SymbolTable.Change α)),
      let rule := (ofText text true).parse (some t.vocabulary)
      rule.status = .done →
        ∃ h below, evaluate (t.run cs) [] [] rule.premise = .ok (h :: below) ∧
          rule.relevance (t.run cs) = .ok h ∧
          (∃ p c, rule.lexemes = sentence p c) ∧
          ∀ p c, rule.lexemes = sentence p c → (h :: below).length = p.operands.length) ∧
    ∀ (t : SymbolTable Exact) (cs : List (SymbolTable.Change Exact)),
      let rule := (ofText text true).parse (some t.vocabulary)
      rule.status = .done → t.Valid → (∀ c ∈ cs, c.Valid) →
        ∃ q : ℚ, rule.relevance (t.run cs) = .ok (.number q) ∧ 0 ≤ q ∧ q ≤ 1 := by
  constructor
  · intro α _ t cs rule h
    obtain ⟨⟨p, c, hws⟩, hread⟩ := parse_of_done h
    have heval : ∀ p c, rule.lexemes = sentence p c → ∃ below,
        evaluate (t.run cs) [] [] rule.premise =
          .ok (p.lastOperand.degree (t.run cs).degree :: below) ∧
        below.length + 1 = p.operands.length := by
      intro p c hws
      rw [show rule = _ from (hread p c hws).1]
      exact evaluate_postfixForm (defines_of_done h hws cs)
    obtain ⟨below, hbelow, -⟩ := heval p c hws
    refine ⟨_, below, hbelow, ?_, ⟨p, c, hws⟩, fun p' c' hws' => ?_⟩
    · rw [show rule = _ from (hread p c hws).1]
      exact relevance_readAs c (defines_of_done h hws cs)
    · obtain ⟨below', hbelow', hlen⟩ := heval p' c' hws'
      rw [hbelow] at hbelow'
      rw [Except.ok.inj hbelow', List.length_cons]
      exact hlen
  · intro t cs rule h ht hcs
    obtain ⟨⟨p, c, hws⟩, hread⟩ := parse_of_done h
    have hdef := defines_of_done h hws cs
    have hvalid := SymbolTable.valid_run cs ht hcs
    have hlast : ∀ x ∈ p.lastOperand.clauses, ∃ q : ℚ,
        (t.run cs).degree x = .number q ∧ 0 ≤ q ∧ q ≤ 1 := fun x hx =>
      clause_within hvalid (hdef x (Phrase.mem_clauses_of_operand p.lastOperand_mem hx))
    obtain ⟨q, hq, h0, h1⟩ := degree_induction (Q := fun d => ∃ q : ℚ,
      d = Exact.number q ∧ 0 ≤ q ∧ q ≤ 1) hlast
    refine ⟨q, ?_, h0, h1⟩
    rw [show rule = _ from (hread p c hws).1, relevance_readAs c hdef, hq]

/-- A rule of two operands whose table gains a term and a crisp value. -/
theorem relevance_of_two_operands :
    let f : Membership Exact := ⟨.number 0, .number 1, .number 1, .number 2, .number 1⟩
    let t : SymbolTable Exact := ⟨[⟨"x", .input, [("a", f)], .number 0⟩], false⟩
    let rule := (ofText "if x is a and X is a then x is a" true).parse (some t.vocabulary)
    rule.status = .done ∧ ∃ q : ℚ,
      rule.relevance (t.run [.addTerm "x" "b" f, .setValue "X" (.number (1 / 2)), .freeze]) =
        .ok (.number q) ∧ 0 ≤ q ∧ q ≤ 1 := by
  have hdone : ((ofText "if x is a and X is a then x is a" true).parse
      (some (SymbolTable.vocabulary (α := Exact) ⟨[⟨"x", .input, [("a",
        ⟨.number 0, .number 1, .number 1, .number 2, .number 1⟩)], .number 0⟩], false⟩))).status =
      .done := by decide +kernel
  intro f t rule
  have hf : f.Valid := Membership.valid_iff.mpr ⟨⟨rfl, rfl, rfl⟩, rfl, rfl⟩
  have ht : t.Valid := by
    intro v hv x hx
    obtain rfl := List.mem_singleton.mp hv
    obtain rfl := List.mem_singleton.mp hx
    exact hf
  have hcs : ∀ c ∈ [SymbolTable.Change.addTerm "x" "b" f, .setValue "X" (.number (1 / 2)),
      .freeze], c.Valid := by
    simp [SymbolTable.Change.Valid, hf]
  exact ⟨hdone, (relevance_of_changes "if x is a and X is a then x is a").2 t _ hdone ht hcs⟩

end Rule

end FuzzyInference
