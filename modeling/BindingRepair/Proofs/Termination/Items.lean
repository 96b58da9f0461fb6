/-
# Statements and declarations come to an end

Statements, the declarations of types, and imports and exports. A construct that begins with a word reads
that word first.
-/

import BindingRepair.Proofs.Termination.Expressions

set_option synthInstance.maxSize 20000
set_option synthInstance.maxHeartbeats 100000

namespace BindingRepair.Script.Grammar

variable {k need : Nat} {rules : Rules}

section Provides

variable [Provides k rules]

/-! ### Variables -/

instance (kind : BindingKind) : Serves k 16 (declaredName rules kind) := by
  unfold declaredName
  constructor
  all_goals infer_instance

instance : Halts k need (declaredType rules) := by
  unfold declaredType
  infer_instance

instance (noIn : Bool) : Halts k need (initialFunction rules noIn) := by
  unfold initialFunction
  infer_instance

instance (kind : BindingKind) (noIn : Bool) : Serves k 16 (declarator rules kind noIn) := by
  unfold declarator
  constructor
  all_goals infer_instance

instance (noIn : Bool) : Consumes k need (varDeclaration rules noIn) := by
  unfold varDeclaration
  constructor
  all_goals infer_instance

instance : Consumes k need (varStatement rules) := by
  unfold varStatement
  constructor
  all_goals infer_instance

/-! ### Control -/

instance : Serves k need (parenthesized rules) := by
  unfold parenthesized
  constructor
  all_goals infer_instance

instance : Halts k 16 (forInitializer rules) := by
  unfold forInitializer
  infer_instance

instance : Halts k 16 (forRest rules) := by
  unfold forRest
  infer_instance

instance : Serves k need (forStatement rules) := by
  unfold forStatement
  constructor
  all_goals infer_instance

instance : Halts k need (catchParameter rules) := by
  unfold catchParameter
  infer_instance

instance : Serves k need (tryStatement rules) := by
  unfold tryStatement
  constructor
  all_goals infer_instance

instance : Serves k 16 (switchItem rules) := by
  unfold switchItem
  constructor
  all_goals infer_instance

instance : Serves k need (switchStatement rules) := by
  unfold switchStatement
  constructor
  all_goals infer_instance

/-! ### Statements -/

instance : Serves k need (ifStatement rules) := by
  unfold ifStatement
  constructor
  all_goals infer_instance

instance : Serves k need (whileStatement rules) := by
  unfold whileStatement
  constructor
  all_goals infer_instance

instance : Consumes k need (doStatement rules) := by
  unfold doStatement
  constructor
  all_goals infer_instance

instance : Consumes k need (returnStatement rules) := by
  unfold returnStatement
  constructor
  all_goals infer_instance

instance : Consumes k need jumpStatement := by
  unfold jumpStatement
  constructor
  all_goals infer_instance

section Expression

variable [Serves k need (rules (.assignment false))]

instance : Serves k need (plainStatement rules) := by
  unfold plainStatement
  constructor
  all_goals infer_instance

instance (word : String) : Consumes k need (statementOf rules word) := by
  unfold statementOf
  split
  all_goals
    constructor
    all_goals infer_instance

instance : Serves k need (statement rules) := by
  unfold statement
  constructor
  · infer_instance
  · infer_instance
  · apply Fails.bind_denies inferInstance
    apply fails_token
    intro t none
    rw [none.isWord]
    infer_instance

end Expression

/-! ### Declarations of types -/

instance : Serves k need ambientName := by
  unfold ambientName
  constructor
  all_goals infer_instance

instance : Serves k need enumRest := by
  unfold enumRest
  constructor
  all_goals infer_instance

instance : Serves k need enumDeclaration := by
  unfold enumDeclaration
  constructor
  all_goals infer_instance

instance : Consumes k need (interfaceDeclaration rules) := by
  unfold interfaceDeclaration
  constructor
  all_goals infer_instance

instance : Consumes k need (aliasDeclaration rules) := by
  unfold aliasDeclaration
  constructor
  all_goals infer_instance

instance : Halts k need (interfaceOrAlias rules) := by
  unfold interfaceOrAlias
  infer_instance

instance : Strides k need id (interfaceOrAlias rules) := by
  unfold interfaceOrAlias
  infer_instance

instance : Halts k 16 (namespaceRest rules) := by
  unfold namespaceRest
  infer_instance

instance : Halts k 16 (ambientVariables rules) := by
  unfold ambientVariables
  infer_instance

instance : Halts k 16 (ambientFunction rules) := by
  unfold ambientFunction
  infer_instance

/-- What stands between the name and the body of an ambient class is skipped. -/
def skipHeritage : Parser Bool := do
  match ← currentKind with
  | .endOfText | .invalid => expected "\x7b"
  | _ => if ← isAt "<" then balanced false else bump
  return true

theorem ambientClass_eq : ambientClass = (do
    eatOptionalWord "abstract"
    expectWord "class"
    ambientName
    repeatWhile do
      if ← isAt "\x7b" then return false
      skipHeritage
    balanced false) :=
  rfl

instance : Serves k need skipHeritage := by
  unfold skipHeritage
  constructor
  · apply Halts.bind_still inferInstance
    intro kind
    split
    all_goals infer_instance
  · apply Strides.bind_still inferInstance
    intro kind
    split
    all_goals infer_instance
  · apply fails_kind
    all_goals infer_instance

instance : Halts k need ambientClass := by
  rw [ambientClass_eq]
  infer_instance

instance : Halts k 16 (ambientDeclaration rules) := by
  unfold ambientDeclaration
  apply Halts.bind_still inferInstance
  intro t
  apply Halts.bind_still inferInstance
  intro enumFollows
  split
  · infer_instance
  · split
    all_goals infer_instance

instance {body : Parser Unit} [Halts k 16 body] : Consumes k need (behindWord body) := by
  unfold behindWord
  constructor
  all_goals infer_instance

instance : Halts k need (typeDeclaration rules) := by
  unfold typeDeclaration
  apply Halts.bind_still inferInstance
  intro t
  apply Halts.bind_still inferInstance
  intro next
  dsimp only
  split
  all_goals infer_instance

instance : Strides k need id (typeDeclaration rules) := by
  unfold typeDeclaration
  apply Strides.bind_still inferInstance
  intro t
  apply Strides.bind_still inferInstance
  intro next
  dsimp only
  split
  all_goals infer_instance

/-! ### Imports and exports -/

instance : Halts k need importAttributes := by
  unfold importAttributes
  infer_instance

instance : Serves k need fromModule := by
  unfold fromModule
  constructor
  all_goals infer_instance

instance (stringToo : Bool) : Halts k need (eatTypeModifier stringToo) := by
  unfold eatTypeModifier
  infer_instance

instance (stringToo : Bool) : Denies (eatTypeModifier stringToo) where
  denies c s _ ends := by
    simp [eatTypeModifier, bind_apply, ends.isNone.isKeyword]

instance (stringToo : Bool) : Strides k need id (eatTypeModifier stringToo) := by
  unfold eatTypeModifier
  infer_instance

instance (imported : Token) : Halts k need (specifierLocal imported) := by
  unfold specifierLocal
  infer_instance

instance (start : Nat) (typeOnly : Bool) (t : Token) (imported : String) :
    Consumes k need (importedAs start typeOnly t imported) := by
  unfold importedAs
  constructor
  all_goals infer_instance

/-- A name in a list of imports, before which the word `type` has been read. -/
def importedName (start : Nat) (typeOnly : Bool) : Parser ImportSpecifier := do
  let t ← currentToken
  let imported ←
    match t.kind with
    | .identifier => pure (identifierName t)
    | .string => pure (stringValue t)
    | _ => unexpected
  importedAs start typeOnly t imported

theorem importSpecifier_eq : importSpecifier = (do
    let start ← currentStart
    let typeOnly ← eatTypeModifier true
    importedName start typeOnly) :=
  rfl

instance (start : Nat) (typeOnly : Bool) : Serves k need (importedName start typeOnly) := by
  unfold importedName
  constructor
  · apply Halts.bind_still inferInstance
    intro t
    dsimp only
    split
    all_goals infer_instance
  · apply Strides.bind_still inferInstance
    intro t
    dsimp only
    split
    all_goals infer_instance
  · apply fails_token
    intro t none
    rcases none with kind | kind
    · rw [kind]
      infer_instance
    · rw [kind]
      infer_instance

instance : Serves k need importSpecifier := by
  rw [importSpecifier_eq]
  constructor
  all_goals infer_instance

instance : Serves k need namedImports := by
  unfold namedImports
  constructor
  all_goals infer_instance

instance (node : ImportNode) : Serves k need (importClause node) := by
  unfold importClause
  constructor
  all_goals infer_instance

instance : Halts k need eatImportType := by
  unfold eatImportType
  infer_instance

instance : Halts k need importAlias := by
  unfold importAlias
  infer_instance

instance (typeOnly : Bool) : Serves k need (importNames typeOnly) := by
  unfold importNames
  constructor
  all_goals infer_instance

instance (typeOnly : Bool) : Halts k need (importParts typeOnly) := by
  unfold importParts
  infer_instance

instance : Consumes k need importDeclaration := by
  unfold importDeclaration
  constructor
  all_goals infer_instance

instance : Halts k 16 (exportDefault rules) := by
  unfold exportDefault
  infer_instance

instance : Serves k need exportFrom := by
  unfold exportFrom
  constructor
  all_goals infer_instance

instance : Denies isAtExportName where
  denies c s _ ends := by
    rcases ends.kind with kind | kind
    · simp [isAtExportName, bind_apply, kind]
    · simp [isAtExportName, bind_apply, kind]

instance : Serves k need exportSpecifier := by
  unfold exportSpecifier
  constructor
  all_goals infer_instance

theorem still_referAll (names : List Token) : Still (names.forM refer) := by
  induction names with
  | nil => exact inferInstanceAs (Still (pure ()))
  | cons t ts ih => exact inferInstanceAs (Still (refer t >>= fun _ => ts.forM refer))

instance (typeOnly : Bool) : Serves k need (exportList typeOnly) := by
  have := still_referAll
  unfold exportList
  constructor
  all_goals infer_instance

instance : Consumes k need exportAlias := by
  unfold exportAlias
  constructor
  all_goals infer_instance

instance : Halts k need (typedExport rules) := by
  unfold typedExport
  infer_instance

instance : Consumes k need (exportDeclaration rules) := by
  unfold exportDeclaration
  constructor
  all_goals infer_instance

/-! ### Items -/

instance (word : String) : Halts k need (declarationOf rules word) := by
  unfold declarationOf
  split
  all_goals infer_instance

instance (word : String) : Strides k need id (declarationOf rules word) := by
  unfold declarationOf
  split
  all_goals infer_instance

instance [Serves k need (rules (.assignment false))] : Serves k need (bareItem rules) := by
  unfold bareItem
  constructor
  · infer_instance
  · infer_instance
  · apply fails_token
    intro t none
    rw [none.isWord]
    infer_instance

end Provides

end BindingRepair.Script.Grammar
