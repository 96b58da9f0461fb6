/-
# Constructs take steps

Every construct of the grammar is read by steps of a growing tree, given that the parsers for the rules
take only such steps. Where a node names others, these have been added before, and a node whose parts are
complete holds at least one character.
-/

import BindingRepair.Proofs.Grammar.Adjacent
import BindingRepair.Script.Grammar

set_option synthInstance.maxSize 20000
set_option synthInstance.maxHeartbeats 100000

namespace BindingRepair.Script.Grammar

open Text

variable {α β : Type} {origin : Cursor} {rules : Rules}

/-! ### Expressions and the functions that they are -/

/-- The function that a shape names has been added. -/
def Shape.Known (shape : Shape) (s : State) : Prop :=
  ∀ id ∈ shape.function?, s.Knows id

theorem Shape.Known.after {s t : State} {shape : Shape} (known : shape.Known s) (steps : Steps origin s t) :
    shape.Known t :=
  fun id here => steps.knows (known id here)

theorem Shape.known_other (s : State) : Shape.other.Known s :=
  fun _ none => absurd none (Option.not_mem_none _)

theorem Shape.known_function {s : State} {id : NodeId} (known : s.Knows id) :
    (Shape.function id).Known s := by
  intro other here
  rw [Shape.function?, Option.mem_some] at here
  rwa [← here]

/-- The function that the result names, if any, has been added. -/
class Finds (p : Parser Shape) : Prop where
  runs : ∀ origin s, Runs origin s p Shape.Known

/-- The parser reads something, and the function that its result names, if any, has been added. -/
class Evaluates (p : Parser Shape) : Prop where
  runs : ∀ origin s, Runs origin s p fun shape t => Consumed s t ∧ shape.Known t

section Finds

variable {p q : Parser Shape} {f : α → Parser Shape} {g : Shape → Parser Shape}

instance (priority := low) [evaluates : Evaluates p] : Eager p :=
  ⟨fun origin s => (evaluates.runs origin s).weaken fun _ _ _ both => both.1⟩

instance (priority := low) [evaluates : Evaluates p] : Finds p :=
  ⟨fun origin s => (evaluates.runs origin s).weaken fun _ _ _ both => both.2⟩

instance : Finds (pure .other) :=
  ⟨fun _ s => Runs.pure (Shape.known_other s)⟩

instance : Evaluates unexpected :=
  ⟨fun _ _ => Runs.unexpected⟩

instance {first : Parser α} [tame : Tame first] [rest : ∀ a, Finds (f a)] : Finds (first >>= f) :=
  ⟨fun origin _ => Runs.bind_tame fun a t _ => (rest a).runs origin t⟩

instance {c : Prop} [Decidable c] [yes : Finds p] [no : Finds q] :
    Finds (if c then p else q) := by
  split
  · exact yes
  · exact no

instance {first : Parser α} [eager : Eager first] [rest : ∀ a, Finds (f a)] : Evaluates (first >>= f) := by
  refine ⟨fun origin _ => Runs.bind_eager fun a t _ consumed => ?_⟩
  exact ((rest a).runs origin t).weaken fun _ _ moves known => ⟨consumed.trans_onward moves.onward, known⟩

theorem Evaluates.bind {first : Parser α} (tame : Tame first) (rest : ∀ a, Evaluates (f a)) :
    Evaluates (first >>= f) := by
  refine ⟨fun origin _ => Runs.bind_tame fun a t moves => ?_⟩
  exact ((rest a).runs origin t).weaken fun _ _ _ both => ⟨moves.onward.trans_consumed both.1, both.2⟩

instance {first : Parser α} [tame : Tame first] [rest : ∀ a, Evaluates (f a)] : Evaluates (first >>= f) :=
  Evaluates.bind tame rest

instance {c : Prop} [Decidable c] [yes : Evaluates p] [no : Evaluates q] :
    Evaluates (if c then p else q) := by
  split
  · exact yes
  · exact no

instance {mark : String} [yes : Finds p] [no : Evaluates q] : Evaluates (do if ← eat mark then p else q) := by
  refine ⟨fun origin s => (runs_eat s mark).bind fun eaten t moves read => Runs.ite (fun is => ?_) fun none => ?_⟩
  · rw [if_pos is] at read
    refine (yes.runs origin t).weaken fun _ _ moves' known => ⟨?_, known⟩
    exact read.2.1.trans_onward moves'.onward
  · rw [if_neg none] at read
    exact read ▸ no.runs origin t

/-- A shape that is kept while something else is read. -/
theorem Evaluates.keep [first : Evaluates p]
    (rest : ∀ origin shape t, shape.Known t → Runs origin t (g shape) Shape.Known) : Evaluates (p >>= g) := by
  refine ⟨fun origin s => (first.runs origin s).bind fun shape t _ both => ?_⟩
  exact (rest origin shape t both.2).weaken fun _ _ moves known =>
    ⟨both.1.trans_onward moves.onward, known⟩

/-- A shape stays what it is until something is found behind it. -/
theorem Evaluates.loop [first : Evaluates p] {step : Parser Bool} [Tame step] :
    Evaluates (p >>= fun init => Grammar.loop init fun shape => do
      if ← step then return .inl .other else return .inr shape) := by
  refine Evaluates.keep fun origin shape t known => ?_
  refine Runs.loop Shape.Known known fun shape u known => ?_
  refine Runs.bind_tame fun more v moves => Runs.ite (fun _ => ?_) fun _ => ?_
  · exact Runs.pure (Shape.known_other v)
  · exact Runs.pure (known.after moves.steps)

instance [inner : Evaluates p] : Evaluates (nested p) :=
  ⟨fun origin _ => runs_nested (inner.runs origin _) fun _ _ => id⟩

end Finds

/-- The parser declares names of a kind. Where the kind is `var`, the current scope has to be the one
around the innermost open node. -/
class Introduces (kind : BindingKind) (p : Parser α) : Prop where
  runs : ∀ origin s, (kind = .var → s.Level) → Runs origin s p fun _ _ => True

section Introduces

variable {kind : BindingKind} {p q : Parser α} {f : α → Parser β}

instance (priority := low) [Tame p] : Introduces kind p :=
  ⟨fun _ s _ => Tame.runs inferInstance s⟩

/-- The scope stays that of the innermost open node. -/
theorem Introduces.bind [first : Introduces kind p] {s : State} {post : β → State → Prop} (level : kind = .var → s.Level)
    (rest : ∀ a t, Moves origin s t → (kind = .var → t.Level) → Runs origin t (f a) post) :
    Runs origin s (p >>= f) post :=
  Runs.of_at fun nested _ _ => (first.runs origin s level).bind fun a t moves _ =>
    rest a t moves fun isVar => moves.level nested (level isVar)

instance [Introduces kind p] [rest : ∀ a, Introduces kind (f a)] : Introduces kind (p >>= f) :=
  ⟨fun origin _ level => Introduces.bind level fun a t _ level' => (rest a).runs origin t level'⟩

instance {c : Prop} [Decidable c] [yes : Introduces kind p] [no : Introduces kind q] :
    Introduces kind (if c then p else q) := by
  split
  · exact yes
  · exact no

instance {step : Parser Bool} [each : Introduces kind step] : Introduces kind (repeatWhile step) := by
  refine ⟨fun origin s level => ?_⟩
  refine (Runs.repeatWhile (fun t => kind = .var → t.Level) level fun t level' => ?_).weaken fun _ _ _ _ => trivial
  refine Runs.of_at fun nested _ _ => (each.runs origin t level').weaken fun _ u moves _ => ?_
  exact fun isVar => moves.level nested (level' isVar)

theorem Introduces.eager_bind [first : Eager p] [rest : ∀ a, Introduces kind (f a)] {s : State}
    (level : kind = .var → s.Level) : Runs origin s (p >>= f) fun _ t => Consumed s t :=
  Runs.of_at fun nested _ _ => Runs.eager_bind fun a t moves =>
    (rest a).runs origin t fun isVar => moves.level nested (level isVar)

end Introduces

/-- The parsers for the rules take only steps, and those for parts of expressions read something. -/
class Orderly (rules : Rules) : Prop where
  item : Tame (rules .item)
  bareItem : Tame (rules .bareItem)
  type : Tame (rules .type)
  typeOperand : Tame (rules .typeOperand)
  element : Eager (rules .element)
  elementEnd : Concludes (rules .element)
  assignment : ∀ noIn, Evaluates (rules (.assignment noIn))
  binary : ∀ precedence noIn, Evaluates (rules (.binary precedence noIn))
  unary : Evaluates (rules .unary)
  callee : Evaluates (rules .callee)
  construction : Evaluates (rules .construction)
  target : ∀ kind origin s, (kind = .var → s.Level) →
    Runs origin s (rules (.target kind)) fun _ t => Consumed s t

section Orderly

variable [orderly : Orderly rules]

instance : Tame (rules .item) :=
  orderly.item

instance : Tame (rules .bareItem) :=
  orderly.bareItem

instance : Tame (rules .type) :=
  orderly.type

instance : Tame (rules .typeOperand) :=
  orderly.typeOperand

instance : Eager (rules .element) :=
  orderly.element

instance : Concludes (rules .element) :=
  orderly.elementEnd

instance (noIn : Bool) : Evaluates (rules (.assignment noIn)) :=
  orderly.assignment noIn

instance (precedence : Nat) (noIn : Bool) : Evaluates (rules (.binary precedence noIn)) :=
  orderly.binary precedence noIn

instance : Evaluates (rules .unary) :=
  orderly.unary

instance : Evaluates (rules .callee) :=
  orderly.callee

instance : Evaluates (rules .construction) :=
  orderly.construction

instance (kind : BindingKind) : Introduces kind (rules (.target kind)) :=
  ⟨fun origin s level => (orderly.target kind origin s level).weaken fun _ _ _ _ => trivial⟩

instance : Eager (rules (.target .param)) :=
  ⟨fun origin s => orderly.target .param origin s fun isVar => BindingKind.noConfusion isVar⟩

instance : Eager (rules (.target .catchParam)) :=
  ⟨fun origin s => orderly.target .catchParam origin s fun isVar => BindingKind.noConfusion isVar⟩

/-! ### Lookahead -/

instance {effect : Effect} {α : Type} (found : Option α) : Acts effect (answer found) := by
  cases found with
  | some a => exact inferInstanceAs (Acts effect (pure a))
  | none => exact inferInstanceAs (Acts effect exhausted)

instance : Looks letDeclares := by
  unfold letDeclares
  infer_instance

instance : Looks asyncFunctionAhead := by
  unfold asyncFunctionAhead
  infer_instance

instance : Looks awaitOperates := by
  unfold awaitOperates
  infer_instance

/-! ### Lists of expressions -/

instance (noIn : Bool) : Evaluates (expression rules noIn) := by
  refine Evaluates.keep fun origin shape t known => Runs.bind_tame fun _ u moves => Runs.ite ?_ ?_
  · exact fun _ => Runs.bind_tame fun _ v _ => Runs.pure (Shape.known_other v)
  · exact fun _ => Runs.pure (known.after moves.steps)

instance : Eager (operand rules) := by
  unfold operand
  infer_instance

instance : Eager (anyExpression rules) := by
  unfold anyExpression
  infer_instance

instance : Tame (initializer rules) := by
  unfold initializer
  infer_instance

instance : Eager (propertyKey rules) := by
  unfold propertyKey
  refine Eager.bind inferInstance fun kind => ?_
  split
  · infer_instance
  · infer_instance
  · infer_instance
  · infer_instance
  · infer_instance

end Orderly

instance : Lexical propertyName := by
  unfold propertyName
  refine Acts.bind inferInstance fun kind => ?_
  split
  · infer_instance
  · infer_instance
  · infer_instance

/-! ### Types -/

theorem Acts.groupStep {effect : Effect} (again : ∀ (again : Token → Token) [Rereads again], Acts effect (reread again))
    (typesOnly : Bool) (stack : List Bracket) : Acts effect (groupStep typesOnly stack) := by
  have token : Acts effect currentToken := by
    unfold currentToken
    infer_instance
  have kind : Acts effect currentKind := by
    unfold currentKind
    infer_instance
  unfold Grammar.groupStep
  refine Acts.bind inferInstance fun t => ?_
  dsimp only
  repeat' first
    | infer_instance
    | split
    | refine Acts.bind inferInstance fun _ => ?_

instance (typesOnly : Bool) (stack : List Bracket) : Lexical (groupStep typesOnly stack) :=
  Acts.groupStep (fun _ => inferInstance) typesOnly stack

instance (typesOnly : Bool) : Lexical (balanced typesOnly) := by
  unfold balanced
  infer_instance

instance : Lexical optionalAngles := by
  unfold optionalAngles
  infer_instance

instance : Lexical typedAngles := by
  unfold typedAngles
  infer_instance

/-- On a trial that fails the place is put back as it was. -/
instance {body : Parser Unit} {accept : Parser Bool} [first : Lexical body] [second : Lexical accept] :
    Lexical (attempt body accept) := by
  refine ⟨fun c s => ?_⟩
  have back {t : State} (same : s.SameTree t) :
      reading.ok s { t with token := s.token, previousEnd := s.previousEnd } :=
    ⟨⟨same.nodes, same.scopes, same.references, same.opened, same.scope⟩,
      fun _ sound => ⟨sound.of_same rfl rfl, .of_same rfl rfl⟩⟩
  have tried := first.acts c s
  unfold attempt
  dsimp only
  cases result : body c s with
  | error e t =>
      rw [result] at tried
      by_cases bounded : e.cause = .exhausted
      · simp only [if_pos bounded]
        exact tried
      · simp only [if_neg bounded]
        exact back tried
  | ok a t =>
      rw [result] at tried
      have accepted := second.acts c t
      dsimp only
      cases result' : accept c t with
      | error e u =>
          rw [result'] at accepted
          by_cases bounded : e.cause = .exhausted
          · simp only [if_pos bounded]
            exact tried.1.trans accepted
          · simp only [if_neg bounded]
            exact back (tried.1.trans accepted)
      | ok b u =>
          rw [result'] at accepted
          cases b with
          | true => exact reading.trans tried accepted
          | false => exact back (tried.1.trans accepted.1)

instance : Lexical typeArguments := by
  unfold typeArguments
  infer_instance

instance : Lexical closingAngle := by
  unfold closingAngle
  infer_instance

instance : Lexical entityName := by
  unfold entityName
  have names : Lexical (repeatWhile do
      unless ← eat "." do return false
      match ← currentKind with
      | .identifier | .privateName => bump
      | _ => expected "name"
      return true) := by
    refine Acts.repeatWhile (Acts.bind inferInstance fun _ => ?_)
    repeat' first
      | infer_instance
      | split
      | refine Acts.bind inferInstance fun _ => ?_
  infer_instance

instance : Lexical typeSuffixes := by
  unfold typeSuffixes
  infer_instance

instance : Lexical parameterModifiers := by
  unfold parameterModifiers
  infer_instance

section Orderly

variable [Orderly rules]

instance : Tame ( typeAnnotation rules) := by
  unfold typeAnnotation
  infer_instance

instance : Tame (functionType rules) := by
  unfold functionType
  infer_instance

instance : Tame (typeList rules) := by
  unfold typeList
  infer_instance

instance : Tame (typeExpression rules) := by
  unfold typeExpression
  infer_instance

instance : Tame (namedTypeRest rules) := by
  unfold namedTypeRest
  infer_instance

instance (t : Token) : Tame (typeFromWord rules t) := by
  unfold typeFromWord
  infer_instance

instance : Tame (typeOperand rules) := by
  unfold typeOperand
  refine Acts.bind inferInstance fun t => ?_
  repeat' first
    | infer_instance
    | split

instance : Tame (decorators rules) := by
  unfold decorators
  infer_instance

/-! ### Patterns -/

instance : Tame (defaultValue rules) := by
  unfold defaultValue
  infer_instance

instance (closing : String) {item : Parser Unit} [Tame item] : Tame (commaSeparated closing item) := by
  unfold commaSeparated
  infer_instance

instance (kind : BindingKind) (closing : String) {item : Parser Unit} [Introduces kind item] :
    Introduces kind (commaSeparated closing item) := by
  unfold commaSeparated
  infer_instance

theorem runs_arrayPattern {s : State} {kind : BindingKind} (level : kind = .var → s.Level) :
    Runs origin s (arrayPattern rules kind) fun _ t => Consumed s t := by
  unfold arrayPattern
  exact Introduces.eager_bind level

/-- A name without a colon is declared where it stands. -/
theorem runs_shorthand {s : State} {kind : BindingKind} {p q : Parser α} [Tame p] [Introduces kind q]
    (level : kind = .var → s.Level) :
    Runs origin s (do
      if (← isAtBindingName) && !(← peekIs ":") then
        let _ ← bindCurrent { kind, shorthand := true }
        p
      else q) fun _ _ => True := by
  refine Goes.bind_value (fun _ => rfl) (Goes.bind_value (fun _ => rfl) (Runs.ite (fun names => ?_) fun _ => ?_))
  · rw [Bool.and_eq_true] at names
    exact (runs_bindCurrent (kind_of_namesBinding names.1) level).bind fun _ t _ _ => Tame.runs inferInstance t
  · exact Introduces.runs origin s level

instance (kind : BindingKind) : Introduces kind (propertyPattern rules kind) := by
  refine ⟨fun origin s level => Introduces.bind level fun eaten t _ level' => ?_⟩
  refine Runs.ite (fun _ => Introduces.runs origin t level') fun _ => ?_
  exact runs_shorthand level'

theorem runs_objectPattern {s : State} {kind : BindingKind} (level : kind = .var → s.Level) :
    Runs origin s (objectPattern rules kind) fun _ t => Consumed s t := by
  unfold objectPattern
  exact Introduces.eager_bind level

theorem runs_bindingTarget {s : State} {kind : BindingKind} (level : kind = .var → s.Level) :
    Runs origin s (bindingTarget rules kind) fun _ t => Consumed s t := by
  refine Runs.ifNamed level (fun _ _ _ consumed => Runs.pure consumed) ?_
  refine Runs.bind_looks fun _ => Runs.ite (fun _ => runs_arrayPattern level) fun _ => ?_
  refine Runs.bind_looks fun _ => Runs.ite (fun _ => runs_objectPattern level) fun _ => ?_
  exact Runs.expected

end Orderly

/-! ### Elements -/

instance : Looks isAtGreater := by
  unfold isAtGreater
  infer_instance

instance : Lexical elementNamePart := by
  unfold elementNamePart
  infer_instance

/-- The part of a name becomes the current token. -/
theorem runs_elementNamePart (s : State) :
    Runs origin s elementNamePart fun a t => t.token = a ∧ a.kind = .identifier := by
  refine Goes.bind_value (fun _ => rfl) (Runs.ite (fun identifier => ?_) fun _ => ?_)
  · refine Runs.weaken (Runs.value fun _ => rfl) fun a t _ same => ?_
    obtain ⟨rfl, rfl⟩ := same
    refine ⟨rfl, ?_⟩
    rw [Token.asElementName, if_pos identifier]
    rfl
  · exact Runs.fails fun _ => ⟨_, _, rfl⟩

instance : Lexical skipNamePart := by
  unfold skipNamePart
  infer_instance

theorem runs_elementName (s : State) (opening : Bool) :
    Runs origin s (elementName opening) fun _ _ => True := by
  refine (runs_elementNamePart s).bind ?_
  rintro first t - ⟨rfl, identifier⟩
  refine Runs.of_at fun nested _ at' => (runs_bump t).bind fun _ u _ read => ?_
  have takes := at'.takes nested identifier
  have behind : t.token.stop ≤ u.previousEnd.offset := by
    rw [read.2, t.previousEnd_bumped]
    exact Nat.le_refl _
  have refers {v : State} (moves : Moves origin u v) (same : t.SameTree v) :
      Runs origin v (refer t.token) fun _ _ => True :=
    (runs_refer (takes.of_same same) (Nat.le_trans behind moves.onward.previousEnd.offset_le)).weaken
      fun _ _ _ _ => trivial
  have toName : t.SameTree u := read.2 ▸ t.sameTree_bumped
  refine (Runs.lexical (p := eat ":")).bind fun _ v toColon sameColon => Runs.ite ?_ fun _ => ?_
  · exact fun _ => Tame.runs inferInstance v
  · refine Runs.bind_looks fun member => Runs.lexical.bind fun _ w toEnd sameEnd => Runs.ite ?_ ?_
    · exact fun _ => refers (toColon.trans toEnd) ((toName.trans sameColon).trans sameEnd)
    · exact fun _ => Runs.pure trivial

instance (opening : Bool) : Tame (elementName opening) :=
  Tame.of_runs fun _ s => runs_elementName s opening

instance : Lexical toChildBehind := by
  refine lexical_modify (fun _ => ⟨rfl, rfl, rfl, rfl, rfl⟩) fun origin s sound => ?_
  obtain ⟨covers, first⟩ := Token.covers_readChild s.token.last
  refine sound.onward_behind ?_ covers
  rw [first]
  exact .refl _

instance : Concludes toChildBehind :=
  .of_read fun _ _ => ⟨_, _, rfl, rfl, rfl⟩

/-- Behind something that has been read, the child begins where it ends. -/
theorem runs_toChild {s : State} {p : Parser α} [eager : Eager p] [concludes : Concludes p] :
    Runs origin s (p >>= fun _ => toChild) fun _ _ => True := by
  intro edge nested at' c
  have head := (eager.runs origin s).and (concludes.runs origin s) edge nested at' c
  rw [bind_apply]
  cases result : p c s with
  | ok a t =>
      rw [result] at head
      obtain ⟨follows, nested', there, scope, consumed, spaced⟩ := head
      obtain ⟨covers, first⟩ := Token.covers_readChild t.previousEnd
      have further : edge ≤ t.previousEnd.offset := Nat.le_trans at'.high consumed.reaches.offset_le
      let u : State := { t with token := Token.readChild t.previousEnd }
      have start : u.token.first = t.previousEnd := first
      have back : Steps origin t u := .single (.read ⟨rfl, rfl, rfl, rfl, rfl⟩)
      have onward : Onward s u := ⟨follows.onward.previousEnd, start ▸ consumed.reaches⟩
      refine ⟨⟨follows.steps.trans back, onward, follows.opened⟩,
        ⟨nested'.forest, nested'.scope, nested'.rooted, nested'.opened, nested'.ordinary, nested'.inside, nested'.top⟩,
        ?_, scope, trivial⟩
      have reaches : origin.Reaches u.token.first := start ▸ (at'.sound.reaches_first.trans consumed.reaches)
      refine ⟨⟨reaches, start ▸ .refl _, covers⟩, Nat.le_max_right .., ?_, there.clear, ?_⟩
      · show max edge t.previousEnd.offset ≤ u.token.first.offset
        rw [start]
        exact Nat.max_le.mpr ⟨further, Nat.le_refl _⟩
      · show t.Spaced origin u.token.first.offset
        rw [start]
        exact spaced
  | error e t => trivial

section Orderly

variable [Orderly rules]

omit [Orderly rules] in
instance : Concludes closingAngle := by
  unfold closingAngle
  infer_instance

omit [Orderly rules] in
instance : Tame closingTag := by
  unfold closingTag
  infer_instance

omit [Orderly rules] in
instance : Concludes closingTag := by
  unfold closingTag
  infer_instance

instance : Tame (attributeValue rules) := by
  unfold attributeValue
  infer_instance

instance : Tame (attributes rules) := by
  unfold attributes
  infer_instance

instance : Tame (childExpression rules) := by
  unfold childExpression
  infer_instance

instance : Tame (children rules) := by
  unfold children
  refine Acts.repeatWhile (Acts.bind inferInstance fun child => ?_)
  have element : Tame (rules .element >>= fun _ => toChild) :=
    Tame.of_runs fun _ _ => runs_toChild
  have elements : Tame (rules .element >>= fun _ => toChild >>= fun _ => pure true) := by
    rw [← bind_assoc]
    infer_instance
  split
  · infer_instance
  · infer_instance
  · infer_instance

/-- The last of the children is a closing tag. -/
instance : Concludes (children rules) := by
  refine Concludes.repeatWhile fun origin s => Runs.bind_looks fun child => ?_
  have goesOn {p : Parser Unit} [Tame p] (t : State) : Runs origin t (p >>= fun _ => pure true) fun more u =>
      more = false → u.Spaced origin u.previousEnd.offset :=
    Runs.bind_tame fun _ _ _ => Runs.pure fun ends => absurd ends.symm Bool.false_ne_true
  have element : Tame (rules .element >>= fun _ => toChild) :=
    Tame.of_runs fun _ _ => runs_toChild
  split
  · exact Runs.expected
  · exact goesOn s
  · refine Runs.ite (fun _ => Runs.bind_tame fun _ t _ => goesOn t) fun _ => Runs.ite (fun _ => ?_) fun _ => ?_
    · exact (Concludes.runs (p := closingTag) origin s).bind fun _ _ _ spaced => Runs.pure fun _ => spaced
    · rw [← bind_assoc]
      exact goesOn s

instance : Tame (childrenOfTag rules) := by
  unfold childrenOfTag
  infer_instance

instance : Concludes (childrenOfTag rules) := by
  unfold childrenOfTag
  infer_instance

instance : Eager (element rules) := by
  unfold element
  infer_instance

instance : Concludes (element rules) := by
  unfold element
  infer_instance

/-! ### Functions -/

instance : Tame (statements rules) := by
  unfold statements
  infer_instance

/-- Statements end before a closing brace. -/
theorem runs_statements (s : State) :
    Runs origin s (statements rules) fun _ t => t.token.isPunctuator "\x7d" = true := by
  refine Runs.repeatWhile_ends fun s => Goes.bind_value (fun _ => rfl) (Runs.ite (fun closes => ?_) fun _ => ?_)
  · exact Runs.pure fun _ => closes
  · refine Runs.bind_looks fun _ => Runs.ite (fun _ => Runs.expected) fun _ => ?_
    exact Runs.bind_tame fun _ _ _ => Runs.pure fun ends => absurd ends.symm Bool.false_ne_true

instance : Eager (block rules) := by
  unfold block
  infer_instance

instance : Tame (parameter rules) := by
  unfold parameter
  repeat' first
    | infer_instance
    | split
    | refine Acts.bind ?_ fun _ => ?_

instance : Eager (parameters rules) := by
  unfold parameters
  infer_instance

/-- A body has been read that begins in the state `s`: what is declared at its top belongs in the gap at a place,
behind the opening brace and before the place that has been reached. -/
structure State.ReadsBody (origin : Cursor) (s t : State) (body : FunctionBody) (place : Cursor) : Prop where
  passes : origin.Passes place
  splits : origin.Splits place
  anchor : place.offset = body.anchor
  first : ∀ o ∈ body.firstStatement, o = gapEnd place
  start_lt : s.token.start < place.offset
  lt_stop : gapEnd place < t.previousEnd.offset
  opens : Opens origin s.token.start
  free : FreeGap t.nodes place
  later : ∀ (i : Nat) (n : Node), t.nodes[i]? = some n → s.nodes.size ≤ i → Opens origin n.span.start →
    gapEnd place ≤ n.span.start

/-- The brace of a body that begins in the state `s` has been read, with the directives behind it. No name has come
that reaches into the gap behind them, and no node that begins with a brace. -/
structure State.OpensBody (origin : Cursor) (s t : State) (directivesEnd : Option Nat) : Prop where
  consumed : Consumed s t
  passes : origin.Passes t.previousEnd
  splits : origin.Splits t.previousEnd
  opening : origin.Marks (s.token.start + 1)
  anchor : directivesEnd.getD (s.token.start + 1) = t.previousEnd.offset
  start_lt : s.token.start < t.previousEnd.offset
  gap : t.token.start = gapEnd t.previousEnd
  opens : Opens origin s.token.start
  names : ∀ (i : Nat) (n : Node), t.nodes[i]? = some n → n.kind.isIdentifier = true →
    n.span.stop < t.previousEnd.offset
  added : ∀ (i : Nat) (n : Node), t.nodes[i]? = some n → s.nodes.size ≤ i → ¬Opens origin n.span.start

/-- In a body only the directives come before the gap, and they hold no names. -/
theorem runs_bodyTop (s : State) :
    Runs origin s (expect "\x7b" >>= fun _ => directives) fun directivesEnd t =>
      s.OpensBody origin t directivesEnd := by
  refine Runs.of_at fun _ _ at' => ?_
  refine (runs_expect s "\x7b").bind fun _ t toOpening ⟨consumed, brace, is⟩ => ?_
  have behind : t.previousEnd.offset = s.token.start + 1 := by
    rw [is, s.previousEnd_bumped]
    exact at'.sound.covers.stop_of_isPunctuator brace
  have adjacent : t.Adjacent := is ▸ s.adjacent_bumped
  have brace' : origin.Splits t.previousEnd :=
    is ▸ at'.sound.splits_bumped (kind_of_isPunctuator brace ▸ TokenKind.noConfusion)
  have nodes : t.nodes = s.nodes := is ▸ s.sameTree_bumped.nodes
  refine ((runs_directives t).and (Runs.adjacent adjacent)).weaken fun directivesEnd u toFirst ⟨directives, adjacent⟩ => ?_
  have further := toFirst.onward.previousEnd.offset_le
  have reaches : origin.Reaches u.previousEnd :=
    (at'.sound.reaches_first.trans consumed.reaches).trans toFirst.onward.previousEnd
  have starts : s.token.start < u.previousEnd.offset := by omega
  exact {
    consumed := consumed.trans_onward toFirst.onward
    passes := reaches.passes (Nat.lt_of_le_of_lt at'.sound.reaches_first.offset_le starts)
    splits := directives.splits_end brace'
    opening := at'.sound.marks_behind brace rfl
    anchor := behind ▸ directives.anchor
    start_lt := starts
    gap := adjacent.start_eq
    opens := at'.sound.opens brace
    names := fun i n found identifier => by
      by_cases known : i < t.nodes.size
      · obtain ⟨m, found', kept⟩ := toFirst.steps.nodesKept i _ (Array.getElem?_eq_getElem known)
        obtain rfl := Option.some.inj (found.symm.trans found')
        rw [kept.span (kept.isIdentifier.symm.trans identifier)]
        exact Nat.lt_of_le_of_lt (at'.clear_start i _ (nodes ▸ Array.getElem?_eq_getElem known)) starts
      · rw [(directives.adds i n found (Nat.le_of_not_lt known)).1] at identifier
        cases identifier
    added := fun i n found outside => (directives.adds i n found (nodes ▸ outside)).2 }

/-- The statements of a body come behind the gap, and the closing brace. -/
theorem runs_bodyRest {s u : State} {scope : ScopeId} {directivesEnd firstStatement : Option Nat}
    (known : u.KnowsScope scope) (top : s.OpensBody origin u directivesEnd)
    (first : ∀ o ∈ firstStatement, o = u.token.start) : Runs origin u (do
      statements rules
      let closing ← currentStart
      bump
      return { scope, opening := s.token.start, closing, directivesEnd, firstStatement })
      fun (body : FunctionBody) v => Consumed s v ∧ v.KnowsScope body.scope ∧ body.Placed origin ∧
        ∃ place, s.ReadsBody origin v body place := by
  refine Runs.of_at fun _ _ there => (Runs.from_here.and (runs_statements u)).bind fun _ v toClosing known' => ?_
  obtain ⟨steps, closes⟩ := known'
  refine Runs.of_at fun _ _ last => Runs.bind_looks fun closing => ?_
  refine (runs_bump v).bind fun _ w toEnd ⟨consumed', is'⟩ => Runs.pure ?_
  have all := toClosing.trans toEnd
  have placed (o : Nat) (here : o ∈ firstStatement) : origin.Marks o :=
    first o here ▸ there.sound.reaches_first.marks
  have directives (o : Nat) (here : o ∈ directivesEnd) : origin.Marks o := by
    have anchor := top.anchor
    rw [Option.mem_def.mp here, Option.getD_some] at anchor
    exact anchor ▸ top.passes.reaches.marks
  refine ⟨top.consumed.trans_onward all.onward, all.knowsScope known, ⟨top.opening, directives, placed⟩,
    u.previousEnd, ?_⟩
  have same : w.nodes = v.nodes := is' ▸ v.sameTree_bumped.nodes
  have ends : w.previousEnd.offset = v.token.start + 1 := by
    rw [is', v.previousEnd_bumped]
    exact last.sound.covers.stop_of_isPunctuator closes
  have behind : u.token.start ≤ v.token.start := toClosing.onward.first.offset_le
  exact {
    passes := top.passes
    splits := top.splits
    anchor := top.anchor.symm
    first := fun o here => (first o here).trans top.gap
    start_lt := top.start_lt
    lt_stop := by
      rw [← top.gap, ends]
      exact Nat.lt_succ_of_le behind
    opens := top.opens
    free := by
      rw [same]
      exact steps.freeGap top.names top.gap
    later := fun i n found outside opens => by
      rw [same] at found
      rcases steps.kept_or_marks found with ⟨m, old, kept⟩ | ⟨other, reaches, start⟩
      · rw [kept.start] at opens
        exact absurd opens (top.added i m old outside)
      · rw [← start, ← top.gap]
        exact reaches.offset_le }

/-- So what is declared at the top of a body belongs in a gap. -/
theorem runs_bracedBody {s : State} {scope : ScopeId} (known : s.KnowsScope scope) :
    Runs origin s (do
      expect "\x7b"
      let directivesEnd ← directives
      let firstStatement ← if ← isAt "\x7d" then pure none else some <$> currentStart
      statements rules
      let closing ← currentStart
      bump
      return { scope, opening := s.token.start, closing, directivesEnd, firstStatement })
      fun (body : FunctionBody) t => Consumed s t ∧ t.KnowsScope body.scope ∧ body.Placed origin ∧
        ∃ place, s.ReadsBody origin t body place := by
  rw [← bind_assoc]
  refine (runs_bodyTop s).bind fun directivesEnd u toFirst top => ?_
  have known' := toFirst.knowsScope known
  refine Runs.bind_looks fun _ => Runs.ite (fun _ => ?_) fun _ => ?_
  · exact runs_bodyRest known' top fun _ none => absurd none (Option.not_mem_none _)
  · exact runs_bodyRest known' top fun o here => (Option.mem_some.mp here).symm

/-- The node of a body takes in the gap at its top. -/
theorem State.ReadsBody.fits {outer s t : State} {id : NodeId} {body : FunctionBody} {place : Cursor}
    (reads : s.ReadsBody origin t body place) (size : s.nodes.size = id.index + 1)
    (inside : InNode origin outer id s.token.first t) :
    ∀ parent ∈ outer.opened.head?, body.Fits origin (t.closeNode id).nodes parent := by
  intro parent here
  obtain ⟨n, found, plain, -, isParent, begins⟩ := inside.node
  let m : Node := { n with span := { n.span with stop := max t.previousEnd.offset n.span.start } }
  have closed : (t.closeNode id).nodes[id.index]? = some m := by
    rw [State.closeNode, t.nodes_closeNodeAt, Array.getElem?_modify, if_pos rfl, found]
    rfl
  refine ⟨place, reads.passes, reads.splits, reads.anchor, reads.first, ?_, id.index, m, closed, isParent.trans here, ?_⟩
  · intro i k found' identifier
    obtain ⟨k', old, ⟨rfl, rfl⟩ | ⟨-, rfl⟩⟩ := modify_cases found'
    · obtain rfl := Option.some.inj (found.symm.trans old)
      exact absurd (plain.symm.trans identifier) Bool.false_ne_true
    · exact reads.free i k old identifier
  · exact {
      start := begins ▸ reads.start_lt
      stop := Nat.lt_of_lt_of_le reads.lt_stop (Nat.le_max_left ..)
      opens := begins ▸ reads.opens
      later := fun j k found' after opens => by
        obtain ⟨k', old, ⟨same, -⟩ | ⟨-, rfl⟩⟩ := modify_cases found'
        · exact absurd same (Nat.ne_of_gt after)
        · exact reads.later j k old (size ▸ after) opens }

/-- The body of a function is in the scope that it is given, behind its opening brace. -/
theorem runs_functionBody {s : State} {scope : ScopeId} (known : s.KnowsScope scope) :
    Runs origin s (functionBody rules scope) fun body t =>
      Consumed s t ∧ t.KnowsScope body.scope ∧ body.Placed origin ∧
        ∀ id ∈ s.opened.head?, body.Fits origin t.nodes id := by
  refine Goes.bind_value (fun _ => rfl) (runs_openHere ?_)
  refine Completes.bind (runs_bracedBody known) fun body t moves ⟨consumed, inScope, placed, place, reads⟩ => ?_
  refine Completes.of_within fun _ inside _ _ => Completes.closeNode_pure consumed fun _ => ?_
  exact ⟨inScope, placed, reads.fits (size_appendNode ..) inside⟩

/-- The body of a function, if there is one, is in a scope that has been entered, its offsets are those of
places, and it fits in the innermost open node. -/
def State.KnowsBody (origin : Cursor) (s : State) (body : Option FunctionBody) : Prop :=
  ∀ b ∈ body, s.KnowsScope b.scope ∧ b.Placed origin ∧ ∀ id ∈ s.opened.head?, b.Fits origin s.nodes id

theorem State.knowsBody_none (s : State) : s.KnowsBody origin none :=
  fun _ none => absurd none (Option.not_mem_none _)

theorem runs_functionBody_some {s : State} {scope : ScopeId} (known : s.KnowsScope scope) :
    Runs origin s (some <$> functionBody rules scope) fun body t => Consumed s t ∧ t.KnowsBody origin body := by
  refine (runs_functionBody known).bind fun body t moves both => Runs.pure ⟨both.1, fun b here => ?_⟩
  obtain rfl := Option.mem_some.mp here
  rw [moves.opened]
  exact both.2

theorem runs_functionRest {s : State} (deep : s.Deep) (generator : Bool) :
    Runs origin s (functionRest rules generator) fun body t => Consumed s t ∧ t.KnowsBody origin body := by
  refine runs_keepingScope (goes_withGenerator (goes_withExporting (goes_enterScope deep (Runs.goes ?_))
    fun _ _ => id) fun _ _ => id) fun _ _ => id
  refine Runs.bind_tame fun _ t toTypes => Runs.bind_eager fun _ u toParameters consumed => ?_
  refine Runs.bind_tame fun _ v toResult => Runs.bind_looks fun _ => ?_
  have moves := (toTypes.trans toParameters).trans toResult
  have behind : Consumed s v := (toTypes.onward.trans_consumed consumed).trans_onward toResult.onward
  refine Runs.ite (fun _ => ?_) fun _ => Runs.bind_looks fun _ => Runs.ite (fun _ => ?_) fun _ => Runs.expected
  · refine (runs_functionBody_some (moves.knowsScope (State.knowsScope_enterScope ..))).weaken ?_
    exact fun _ _ toEnd both => ⟨behind.trans_onward toEnd.onward, both.2⟩
  · refine Runs.bind_tame fun _ w toEnd => Runs.pure ?_
    exact ⟨behind.trans_onward toEnd.onward, w.knowsBody_none⟩

theorem State.admits_function {s : State} {name : Option NodeId} {body : Option FunctionBody}
    (arrow : Bool) (nameKnown : ∀ n ∈ name, s.Knows n) (bodyKnown : s.KnowsBody origin body) :
    s.Admits origin (.function { name, arrow, body }) where
  plain := rfl
  untouched := rfl
  named id here := nameKnown id (Option.mem_toList.mp here)
  body scope here := by
    obtain ⟨b, found, rfl⟩ := Option.map_eq_some_iff.mp here
    exact (bodyKnown b found).1
  placed b here := (bodyKnown b here).2.1

/-- The open node becomes a function when its name and its body have been read. -/
theorem Completes.setFunction {outer s : State} {id : NodeId} {start : Cursor} {name : Option NodeId}
    {arrow : Bool} {body : Option FunctionBody} {rest : Unit → Parser β} {last : β → State → Prop}
    (nameKnown : ∀ n ∈ name, s.Knows n) (bodyKnown : s.KnowsBody origin body)
    (closes : Steps origin s (s.setKind id (.function { name, arrow, body })) →
      Completes origin outer id start (s.setKind id (.function { name, arrow, body })) (rest ()) last) :
    Completes origin outer id start s (Grammar.setKind id (.function { name, arrow, body }) >>= rest) last := by
  refine Completes.of_within fun _ inside _ _ => Completes.setKind rfl (fun b here => ?_) ?_ closes
  · exact (bodyKnown b here).2.2 id inside.innermost
  · exact State.admits_function arrow nameKnown bodyKnown

theorem State.knows_none (s : State) : ∀ n ∈ (none : Option NodeId), s.Knows n :=
  fun _ none => absurd none (Option.not_mem_none _)

theorem State.Knows.some {s : State} {id : NodeId} (known : s.Knows id) : ∀ n ∈ some id, s.Knows n := by
  intro n here
  rwa [← Option.mem_some.mp here]

/-- A function whose node is open and whose name has been read. -/
theorem completes_function {outer s : State} {id : NodeId} {start : Cursor} {name : Option NodeId}
    (generator : Bool) (nameKnown : ∀ n ∈ name, s.Knows n) (before : start.Reaches s.token.first) :
    Completes origin outer id start s (do
      let body ← functionRest rules generator
      setKind id (.function { name, body })
      closeNode id) fun _ _ => True := by
  refine Completes.of_within fun nested inside _ _ => ?_
  refine Completes.bind (runs_functionRest (inside.deep nested) generator) fun body t moves both => ?_
  refine Completes.setFunction (fun n here => moves.knows (nameKnown n here)) both.2 fun _ => ?_
  exact Completes.closeNode (before.trans_fills both.1) fun _ => trivial

omit [Orderly rules] in
instance (isAsync : Bool) : Lexical (functionHead isAsync) := by
  unfold functionHead
  infer_instance

/-- A name that may be missing is declared if it is there. -/
theorem runs_bindName_some {s : State} {kind : BindingKind} (names : namesBinding s.token = true)
    (level : kind = .var → s.Level) :
    Runs origin s (some <$> bindName kind) fun name t => Consumed s t ∧ ∀ n ∈ name, t.Knows n :=
  (runs_bindName names level).bind fun _ _ _ both => Runs.pure ⟨both.1, (State.knows_of_endsName both.2.1).some⟩

instance (isAsync nameless : Bool) : Eager (functionDeclaration rules isAsync nameless) := by
  refine ⟨fun origin s => Goes.bind_value (fun _ => rfl) ?_⟩
  refine Runs.consumed (runs_openBehind fun generator t toName => ?_)
  have before := toName.onward.first
  refine Completes.bind_value (fun _ => rfl) (Completes.ite (fun names => ?_) fun _ => Completes.ite (fun _ => ?_) ?_)
  · refine Completes.bind (runs_bindName_some names fun isVar => BindingKind.noConfusion isVar) ?_
    exact fun name u moves both =>
      completes_function generator both.2 (before.trans moves.onward.first)
  · exact completes_function generator (State.knows_none _) before
  · exact fun _ => Completes.fails fun _ => ⟨_, _, rfl⟩

theorem runs_functionExpression (s : State) (isAsync : Bool) :
    Runs origin s (functionExpression rules isAsync) fun shape t => Consumed s t ∧ shape.Known t := by
  refine Goes.bind_value (fun _ => rfl) (runs_openBehind fun generator t toName => ?_)
  have before := toName.onward.first
  refine Completes.of_within fun nested inside _ _ => ?_
  have deep := inside.deep nested
  refine Completes.bind (?_ : Runs origin _ _ fun (r : Option NodeId × Option FunctionBody) u =>
    Consumed t u ∧ (∀ n ∈ r.1, u.Knows n) ∧ u.KnowsBody origin r.2) fun r u moves known => ?_
  · refine runs_inScope deep (Runs.goes ?_) fun _ _ => id
    have rest {name : Option NodeId} {v : State} (deep : v.Deep) (before : t.token.first.Reaches v.token.first)
        (nameKnown : ∀ n ∈ name, v.Knows n) :
        Runs origin v (do return (name, ← functionRest rules generator)) fun r u =>
          Consumed t u ∧ (∀ n ∈ r.1, u.Knows n) ∧ u.KnowsBody origin r.2 :=
      (runs_functionRest deep generator).bind fun body u moves both =>
        Runs.pure ⟨before.trans_fills both.1, fun n here => moves.knows (nameKnown n here), both.2⟩
    refine Goes.bind_value (fun _ => rfl) (Runs.ite (fun names => ?_) fun _ => ?_)
    · refine (runs_bindName_some names fun isVar => BindingKind.noConfusion isVar).bind ?_
      exact fun name v moves both => rest (moves.deep deep) moves.onward.first both.2
    · exact rest deep (.refl _) (State.knows_none _)
  · refine Completes.setFunction known.2.1 known.2.2 fun _ => Completes.of_within fun _ inside _ _ => ?_
    refine Completes.closeNode_pure (before.trans_fills known.1) fun steps => ?_
    exact Shape.known_function (steps.knows inside.holds.knows)

instance (isAsync : Bool) : Evaluates (functionExpression rules isAsync) :=
  ⟨fun _ s => runs_functionExpression s isAsync⟩

instance (generator : Bool) : Eager (method rules generator) := by
  refine ⟨fun origin s => Goes.bind_value (fun _ => rfl) (Runs.consumed (runs_openHere ?_))⟩
  exact completes_function generator (State.knows_none _) (.refl _)

instance : Tame (arrowParameters rules) := by
  unfold arrowParameters
  have name : Tame (do
      if ← isAtBindingName then
        let _ ← bindName .param
        typeAnnotation rules
      else do
        let _ ← (unexpected : Parser Unit)
        typeAnnotation rules) := by
    refine Tame.of_steps fun origin s => Runs.ifNamed (fun isVar => BindingKind.noConfusion isVar) ?_
      Runs.unexpected_bind
    exact fun _ t _ _ => Tame.runs inferInstance t
  infer_instance

theorem runs_arrowRest {s : State} {scope : ScopeId} (known : s.KnowsScope scope) (noIn : Bool) :
    Runs origin s (arrowRest rules scope noIn) fun body t => Consumed s t ∧ t.KnowsBody origin body := by
  refine Runs.bind_tame fun _ t toLine => Runs.bind_looks fun _ => Runs.bind_looks fun _ => ?_
  refine Runs.ite (fun _ => Runs.unexpected_bind) fun _ => Runs.bind_eager fun _ u toBody consumed => ?_
  have behind := toLine.onward.trans_consumed consumed
  refine Runs.bind_looks fun _ => Runs.ite (fun _ => ?_) fun _ => Runs.bind_tame fun _ v toEnd => Runs.pure ?_
  · refine (runs_functionBody_some ((toLine.trans toBody).knowsScope known)).weaken ?_
    exact fun _ _ toEnd both => ⟨behind.trans_onward toEnd.onward, both.2⟩
  · exact ⟨behind.trans_onward toEnd.onward, v.knowsBody_none⟩

theorem runs_arrowFunction (s : State) (isAsync noIn : Bool) :
    Runs origin s (arrowFunction rules isAsync noIn) fun shape t => Consumed s t ∧ shape.Known t := by
  refine Goes.bind_value (fun _ => rfl) (runs_openHere (Completes.of_within fun nested inside _ _ => ?_))
  have deep := inside.deep nested
  refine Completes.bind (?_ : Runs origin _ _ fun body t => Consumed s t ∧ t.KnowsBody origin body)
    fun body t moves known => ?_
  · refine runs_keepingScope (goes_withGenerator (goes_withExporting (goes_enterScope deep (Runs.goes ?_))
      fun _ _ => id) fun _ _ => id) fun _ _ => id
    have scope := State.knowsScope_enterScope
    refine Runs.ite (fun _ => Runs.bind_tame fun _ t moves => ?_) fun _ => runs_arrowRest (scope ..) noIn
    refine (runs_arrowRest (moves.knowsScope (scope ..)) noIn).weaken fun _ _ _ both => ?_
    exact ⟨moves.onward.trans_consumed both.1, both.2⟩
  · refine Completes.setFunction t.knows_none known.2 fun _ => Completes.of_within fun _ inside _ _ => ?_
    refine Completes.closeNode_pure known.1 fun steps => ?_
    exact Shape.known_function (steps.knows inside.holds.knows)

instance (isAsync noIn : Bool) : Evaluates (arrowFunction rules isAsync noIn) :=
  ⟨fun _ s => runs_arrowFunction s isAsync noIn⟩

/-! ### Classes -/

omit [Orderly rules] in
instance : Lexical memberModifiers := by
  unfold memberModifiers
  infer_instance

instance : Sheltered (staticBlock rules) := by
  unfold staticBlock
  infer_instance

omit [Orderly rules] in
instance : Looks indexSignatureAhead := by
  unfold indexSignatureAhead
  infer_instance

instance : Sheltered (classMemberRest rules) := by
  unfold classMemberRest
  infer_instance

instance : Sheltered (classMember rules) := by
  unfold classMember
  infer_instance

instance : Sheltered (classBody rules) := by
  unfold classBody
  infer_instance

instance : Sheltered (classRest rules) := by
  unfold classRest
  infer_instance

omit [Orderly rules] in
instance : Looks isAtClassName := by
  unfold isAtClassName
  infer_instance

/-- What follows the name of a declared class, or stands at that of another. -/
theorem goes_classEnd {s : State} {named : Bool} (deep : s.Deep)
    (names : named = true → namesBinding s.token = true) :
    Goes origin s (do
      let _ ← enterScope .classBody
      if named then
        let _ ← bindName .className
      withExporting false (classRest rules)) fun _ _ => True := by
  have rest {t : State} (deep : t.Deep) : Runs origin t (withExporting false (classRest rules)) fun _ _ => True :=
    Sheltered.runs origin t deep
  refine goes_enterScope deep (Runs.goes (Runs.ite (fun isNamed => ?_) fun _ => rest deep))
  refine Runs.bind (runs_bindName (names isNamed) fun isVar => BindingKind.noConfusion isVar) fun _ t moves _ => ?_
  exact rest (moves.deep deep)

instance (declared nameless : Bool) : Eager (classNode rules declared nameless) := by
  have parts : Busy (do
      eatOptionalWord "abstract"
      expectWord "class"
      let named ← isAtClassName
      keepingScope do
        if declared then
          if named then
            let _ ← bindName .className
          else unless nameless do unexpected
        let _ ← enterScope .classBody
        if !declared && named then
          let _ ← bindName .className
        withExporting false (classRest rules)) := by
    refine ⟨fun origin s deep => Runs.bind_tame fun _ t toWord => ?_⟩
    refine Runs.weaken (Runs.eager_bind fun _ u toName => ?_) ?_
    · refine Goes.bind_value (fun _ => rfl) (runs_keepingScope ?_ fun _ _ => id)
      have deep' : u.Deep := (toWord.trans toName).deep deep
      have undeclared {v : State} (isDeclared : declared = true) {x : Bool} :
          (!declared && x) = true → namesBinding v.token = true := by
        rw [isDeclared]
        exact fun none => absurd none Bool.false_ne_true
      refine Goes.ite (fun isDeclared => Goes.ite (fun isNamed => ?_) fun _ => Goes.ite ?_ ?_) fun _ => ?_
      · rw [Bool.and_eq_true, Bool.and_eq_true] at isNamed
        refine Goes.bind (runs_bindName isNamed.1.1 fun isVar => BindingKind.noConfusion isVar) ?_
        exact fun _ v toRest both => goes_classEnd (Moves.deep ⟨toRest, both.1⟩ deep') (undeclared isDeclared)
      · exact fun _ => goes_classEnd deep' (undeclared isDeclared)
      · exact fun _ => Runs.goes Runs.unexpected_bind
      · refine goes_classEnd deep' fun isNamed => ?_
        rw [Bool.and_eq_true, Bool.and_eq_true, Bool.and_eq_true] at isNamed
        exact isNamed.2.1.1
    · exact fun _ _ _ consumed => toWord.onward.trans_consumed consumed
  exact inferInstanceAs (Eager (currentStart >>= fun start => within .classNode start _))

end Orderly

end BindingRepair.Script.Grammar
