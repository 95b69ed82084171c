import FuzzyInference.Proofs.RuleSet

/-!
# Reading a rule again

A rule may be read more than once, and every reading adds to its postfix forms. The table may have
gained variables and terms in between; what it defines it goes on to define, so the same is read
each time. Every copy of the premise leaves degrees of its own and takes none of those that the
copies before it have left. So the last degree is that of the last operand, as it is after one
reading; and the conclusion begins as it did.

* `again`: reading a rule over a table that changes;
* `readTimes`, `parse_readTimes`, `again_readTimes`: a sentence that has been read so many times;
* `SymbolTable.SameValues`: tables in which the variables of both have the same crisp values;
  `function_of_changes`, `degree_of_changes`: where a table has changed into such tables, clauses have
  the same functions and degrees in both;
* `relevance_readTimes`, `concludeAt_readTimes`: **evaluating what has been read several times**;
  `evaluation_readTimes`: how often does not matter;
* `again_of_done`: a rule that is done, read again.
-/

namespace FuzzyInference

variable {α : Type}

/-! ### Tables that have changed -/

namespace SymbolTable

theorem run_append (t : SymbolTable α) (cs ds : List (Change α)) :
    t.run (cs ++ ds) = (t.run cs).run ds :=
  List.foldl_append

/-- The variables that both tables know have the same crisp values. -/
def SameValues (t t' : SymbolTable α) : Prop :=
  ∀ n v v', t.find? n = some v → t'.find? n = some v' → v.value = v'.value

/-- Wherever a table changes to, the term of a clause that it defines keeps its function. -/
theorem function_of_changes {t : SymbolTable α} {x : Text × Text} (h : t.Defines x) :
    ∃ f, ∀ cs, ∃ v, (t.run cs).find? x.1 = some v ∧ v.term? x.2 = some f := by
  obtain ⟨v, hv, hterm⟩ := h
  obtain ⟨f, hf⟩ := Option.isSome_iff_exists.mp hterm
  refine ⟨f, fun cs => ?_⟩
  obtain ⟨v', hv', hprefix⟩ := find?_run cs hv
  exact ⟨v', hv', Variable.term?_of_prefix hprefix hf⟩

/-- **A clause has the same degree** in tables with the same crisp values into which one that defines
it has changed. -/
theorem degree_of_changes [Scalar α] {t : SymbolTable α} {x : Text × Text} (h : t.Defines x)
    {cs ds : List (Change α)} (hsame : (t.run cs).SameValues (t.run ds)) :
    (t.run cs).degree x = (t.run ds).degree x := by
  obtain ⟨f, hf⟩ := function_of_changes h
  have hdegree : ∀ cs v, (t.run cs).find? x.1 = some v → v.term? x.2 = some f →
      (t.run cs).degree x = f.degree v.value := by
    intro cs v hv hterm
    unfold degree Rule.clauseDegree Variable.fuzzify
    simp only [hv, hterm]
  obtain ⟨v, hv, hterm⟩ := hf cs
  obtain ⟨v', hv', hterm'⟩ := hf ds
  rw [hdegree cs v hv hterm, hdegree ds v' hv' hterm', hsame x.1 v v' hv hv']

end SymbolTable

namespace Rule

/-! ### Reading several times -/

/-- Reads the rule again and again, the table having changed before each time. -/
def again (t : SymbolTable α) (r : Rule) : List (List (SymbolTable.Change α)) → SymbolTable α × Rule
  | [] => (t, r)
  | cs :: css => again (t.run cs) (r.parse (some (t.run cs).vocabulary)) css

/-- The rule behind so many readings of a sentence without error. -/
def readTimes (text : Text) (p : Phrase .row) (c : LooseRow) (n : ℕ) : Rule :=
  { readAs text true p c with
    premise := (List.replicate n p.postfixForm).flatten
    conclusion := (List.replicate n c.postfixForm).flatten
    tokens := (List.replicate n ((sentence p c).map Lexeme.token)).flatten }

section
variable {text : Text} {p : Phrase .row} {c : LooseRow}

theorem readTimes_one : readTimes text p c 1 = readAs text true p c := by
  simp [readTimes, readAs]

theorem flatten_replicate_succ {β : Type} (n : ℕ) (xs : List β) :
    (List.replicate (n + 1) xs).flatten = (List.replicate n xs).flatten ++ xs := by
  rw [List.replicate_succ', List.flatten_append]
  simp

theorem flatMap_replicate {β γ : Type} (f : β → List γ) (xs : List β) : ∀ n : ℕ,
    (List.replicate n xs).flatten.flatMap f = (List.replicate n (xs.flatMap f)).flatten
  | 0 => rfl
  | n + 1 => by
    rw [flatten_replicate_succ, flatten_replicate_succ, List.flatMap_append, flatMap_replicate f xs n]

/-- **One reading more.** -/
theorem parse_readTimes {v : Option Vocabulary} (hlex : (ofText text true).scan.2 = none)
    (hws : (ofText text true).lexemes = sentence p c)
    (hu : (p.clauses ++ c.clauses).findSome? (unknown? v) = none) (n : ℕ) :
    (readTimes text p c n).parse v = readTimes text p c (n + 1) := by
  have hread := Reading.ofText_sentence v hlex hws
  rw [hu] at hread
  have hreading : Reading.ofText v (readTimes text p c n).text =
      (Reading.ofSentence p c, none) := hread
  unfold parse
  rw [hreading]
  unfold readTimes
  rw [flatten_replicate_succ, flatten_replicate_succ, flatten_replicate_succ]
  rfl

/-- **All readings.** -/
theorem again_readTimes (hlex : (ofText text true).scan.2 = none)
    (hws : (ofText text true).lexemes = sentence p c) :
    ∀ (css : List (List (SymbolTable.Change α))) {t : SymbolTable α} (n : ℕ),
      (∀ x ∈ p.clauses ++ c.clauses, t.Defines x) →
      again t (readTimes text p c n) css =
        (t.run css.flatten, readTimes text p c (n + css.length))
  | [], _, _, _ => rfl
  | cs :: css, t, n, hdef => by
    have hdef' : ∀ x ∈ p.clauses ++ c.clauses, (t.run cs).Defines x := fun x hx =>
      SymbolTable.defines_run (hdef x hx) cs
    unfold again
    rw [parse_readTimes hlex hws (findSome?_eq_none_iff.mpr hdef') n,
      again_readTimes hlex hws css (n + 1) hdef', List.flatten_cons, SymbolTable.run_append,
      List.length_cons, Nat.add_right_comm, Nat.add_assoc]

/-! ### Evaluating what has been read several times -/

variable [Scalar α] {t : SymbolTable α}

/-- **The degree of relevance is that of the last operand**, however often the rule has been read. -/
theorem relevance_readTimes (hdef : ∀ x ∈ p.clauses, t.Defines x) (n : ℕ) :
    (readTimes text p c (n + 1)).relevance t = .ok (p.lastOperand.degree t.degree) := by
  obtain ⟨os, hos⟩ := p.exists_operands
  have hoperands : ∀ o ∈ (List.replicate (n + 1) p.operands).flatten, ∀ x ∈ o.clauses,
      t.Defines x := by
    intro o ho x hx
    obtain ⟨copy, hcopy, ho⟩ := List.mem_flatten.mp ho
    rw [List.eq_of_mem_replicate hcopy] at ho
    exact hdef x (Phrase.mem_clauses_of_operand ho hx)
  -- The copies of the premise are the postfix form of all operands, one copy behind the other.
  have hpremise : (readTimes text p c (n + 1)).premise =
      (List.replicate (n + 1) p.operands).flatten.flatMap fun o => (o.emit []).1 := by
    show (List.replicate (n + 1) p.postfixForm).flatten = _
    rw [flatMap_replicate]
    rfl
  have heval := evaluate_operands hoperands [] []
  rw [← hpremise, flatten_replicate_succ, hos] at heval
  simp only [List.map_append, List.map_cons, List.map_nil, List.reverse_append, List.reverse_cons,
    List.reverse_nil, List.nil_append, List.append_assoc, List.cons_append] at heval
  exact relevance_of_evaluate rfl rfl heval

/-- **The conclusion begins as it did.** -/
theorem conclusion_readTimes (text : Text) (p : Phrase .row) (c : LooseRow) (n : ℕ) : ∃ es,
    (readTimes text p c (n + 1)).conclusion =
      .name c.firstClause.1 :: .name c.firstClause.2 :: .is :: es := by
  obtain ⟨es, hform⟩ := c.exists_postfixForm
  refine ⟨es ++ (List.replicate n c.postfixForm).flatten, ?_⟩
  show (List.replicate (n + 1) c.postfixForm).flatten = _
  rw [List.replicate_succ, List.flatten_cons, hform]
  rfl

/-- **The function of the first clause is cut down**, however often the rule has been read. -/
theorem concludeAt_readTimes {f : Membership α} {v : Variable α}
    (hv : t.find? c.firstClause.1 = some v) (hf : v.term? c.firstClause.2 = some f) (n : ℕ) (h : α) :
    (readTimes text p c (n + 1)).concludeAt t h = f.reason h := by
  obtain ⟨es, hconclusion⟩ := conclusion_readTimes text p c n
  have hready : (readTimes text p c (n + 1)).ready .conclusion =
      (.ok () : Except (Fault α) Unit) := rfl
  unfold concludeAt Variable.function
  simp only [hready, hconclusion, Entry.text, hv, hf]

theorem conclude_readTimes {h : α} {n : ℕ}
    (hrelevance : (readTimes text p c (n + 1)).relevance t = .ok h) :
    (readTimes text p c (n + 1)).conclude t = (readTimes text p c (n + 1)).concludeAt t h := by
  have hready : (readTimes text p c (n + 1)).ready .conclusion =
      (.ok () : Except (Fault α) Unit) := rfl
  unfold conclude
  simp only [hready, hrelevance]

/-- **How often a rule has been read does not bear on what it gives** over tables with the same crisp
values into which one that defines its clauses has changed. -/
theorem evaluation_readTimes (hdef : ∀ x ∈ p.clauses ++ c.clauses, t.Defines x)
    {cs ds : List (SymbolTable.Change α)} (hsame : (t.run ds).SameValues (t.run cs)) (m n : ℕ) :
    (readTimes text p c (m + 1)).relevance (t.run cs) =
        (readTimes text p c (n + 1)).relevance (t.run ds) ∧
      (∀ h, (readTimes text p c (m + 1)).concludeAt (t.run cs) h =
        (readTimes text p c (n + 1)).concludeAt (t.run ds) h) ∧
      (readTimes text p c (m + 1)).conclude (t.run cs) =
        (readTimes text p c (n + 1)).conclude (t.run ds) := by
  have hpremise : ∀ x ∈ p.clauses, t.Defines x := fun x hx =>
    hdef x (List.mem_append_left _ hx)
  have hrelevance : ∀ cs n, (readTimes text p c (n + 1)).relevance (t.run cs) =
      .ok (p.lastOperand.degree (t.run cs).degree) := fun cs n =>
    relevance_readTimes (fun x hx => SymbolTable.defines_run (hpremise x hx) cs) n
  have hdegree : p.lastOperand.degree (t.run ds).degree =
      p.lastOperand.degree (t.run cs).degree :=
    degree_congr fun x hx => SymbolTable.degree_of_changes
      (hpremise x (Phrase.mem_clauses_of_operand p.lastOperand_mem hx)) hsame
  obtain ⟨f, hf⟩ :=
    SymbolTable.function_of_changes (hdef _ (List.mem_append_right _ c.firstClause_mem))
  have hconcludeAt : ∀ cs n h,
      (readTimes text p c (n + 1)).concludeAt (t.run cs) h = f.reason h := fun cs n h => by
    obtain ⟨v, hv, hterm⟩ := hf cs
    exact concludeAt_readTimes hv hterm n h
  have hconclude : ∀ cs n, (readTimes text p c (n + 1)).conclude (t.run cs) =
      f.reason (p.lastOperand.degree (t.run cs).degree) := fun cs n =>
    (conclude_readTimes (hrelevance cs n)).trans (hconcludeAt cs n _)
  refine ⟨?_, fun h => ?_, ?_⟩
  · rw [hrelevance, hrelevance, hdegree]
  · rw [hconcludeAt, hconcludeAt]
  · rw [hconclude, hconclude, hdegree]

end

/-- **Reading again does no harm.** A rule that a table accepts stays done without an error however
often it is read over the table, which may change in between; its postfix forms and its tokens are
the first ones as often as it has been read. What it concludes on is the same; and so are, wherever
the table has changed to before and goes on to change to, at the same crisp values, its degree of
relevance and the term that it concludes, at a given degree and at its own. -/
theorem again_of_done [Scalar α] (t : SymbolTable α) (text : Text)
    (css : List (List (SymbolTable.Change α))) :
    let first := (ofText text true).parse (some t.vocabulary)
    let table := (again t first css).1
    let last := (again t first css).2
    first.status = .done →
      last.status = .done ∧ last.errorText = "n/a" ∧
      last.premise = (List.replicate (css.length + 1) first.premise).flatten ∧
      last.conclusion = (List.replicate (css.length + 1) first.conclusion).flatten ∧
      last.tokens = (List.replicate (css.length + 1) first.tokens).flatten ∧
      last.conclusionVariable? = first.conclusionVariable? ∧
      last.conclusionTerm? = first.conclusionTerm? ∧
      ∀ ds es, (t.run ds).SameValues (table.run es) →
        last.relevance (table.run es) = first.relevance (t.run ds) ∧
        (∀ h, last.concludeAt (table.run es) h = first.concludeAt (t.run ds) h) ∧
        last.conclude (table.run es) = first.conclude (t.run ds) := by
  intro first table last hdone
  obtain ⟨hlex, -⟩ := status_parse_done_iff.mp hdone
  obtain ⟨⟨p, c, hws⟩, hread⟩ := parse_of_done hdone
  obtain ⟨hone, hu⟩ := hread p c hws
  have hdef := findSome?_eq_none_iff.mp hu
  have hfirst : first = readTimes text p c 1 := hone.trans readTimes_one.symm
  have hagain : again t first css =
      (t.run css.flatten, readTimes text p c (css.length + 1)) := by
    rw [hfirst, again_readTimes hlex hws css 1 hdef, Nat.add_comm]
  have htable : table = t.run css.flatten := congrArg Prod.fst hagain
  have hlast : last = readTimes text p c (css.length + 1) := congrArg Prod.snd hagain
  rw [htable, hlast, hfirst]
  obtain ⟨es₁, hconclusion₁⟩ := conclusion_readTimes text p c css.length
  obtain ⟨es₂, hconclusion₂⟩ := conclusion_readTimes text p c 0
  refine ⟨rfl, rfl, ?_, ?_, ?_, ?_, ?_, fun ds es hsame => ?_⟩
  · simp [readTimes]
  · simp [readTimes]
  · simp [readTimes]
  · unfold conclusionVariable?
    rw [hconclusion₁, hconclusion₂]
    rfl
  · unfold conclusionTerm?
    rw [hconclusion₁, hconclusion₂]
    rfl
  · rw [← SymbolTable.run_append] at hsame ⊢
    exact evaluation_readTimes hdef hsame css.length 0

/-- A rule of two operands that is read twice more, a variable having been registered. -/
theorem again_of_two_operands :
    let f : Membership Exact := ⟨.number 0, .number 1, .number 1, .number 2, .number 1⟩
    let t : SymbolTable Exact := ⟨[⟨"x", .input, [("a", f)], .number 1⟩], false⟩
    let u : Variable Exact := ⟨"y", .output, [], .number 0⟩
    let first := (ofText "if x is a and X is a then x is a" true).parse (some t.vocabulary)
    let table := (again t first [[.register u], []]).1
    let last := (again t first [[.register u], []]).2
    last.status = .done ∧ last.premise = (List.replicate 3 first.premise).flatten ∧
      last.relevance table = first.relevance t ∧ last.conclude table = first.conclude t := by
  have hdone : ((ofText "if x is a and X is a then x is a" true).parse
      (some (SymbolTable.vocabulary (α := Exact) ⟨[⟨"x", .input, [("a",
        ⟨.number 0, .number 1, .number 1, .number 2, .number 1⟩)], .number 1⟩], false⟩))).status =
      .done := by decide +kernel
  intro f t u first table last
  have htable : table = { t with entries := t.entries ++ [u] } := by decide +kernel
  have hsame : (t.run []).SameValues (table.run []) := by
    intro n v v' hv hv'
    have hfound : t.find? n = some v := hv
    have hfound' : table.find? n = some v' := hv'
    rw [htable] at hfound'
    unfold SymbolTable.find? at hfound hfound'
    rw [List.find?_append, hfound, Option.some_or] at hfound'
    rw [Option.some.inj hfound']
  obtain ⟨hstatus, -, hpremise, -, -, -, -, hvalues⟩ :=
    again_of_done t "if x is a and X is a then x is a" [[.register u], []] hdone
  obtain ⟨hrelevance, -, hconclude⟩ := hvalues [] [] hsame
  exact ⟨hstatus, hpremise, hrelevance, hconclude⟩

end Rule

end FuzzyInference
