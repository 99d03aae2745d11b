import DefineBundle.Proofs.Script.PlainForm.Expressions

/-!
# Import and export in plain form

The words of imports and exports are plain and count only without escapes, so in the plain form the
same statements begin with them, and they take and give the same names.
-/
namespace DefineBundle.Script.PlainForm

open DefineBundle.Script.Parser DefineBundle.Script.Tree

theorem attributeKey_respelled (t : Tree) : attributeKey t.respelled = attributeKey t := by
  obtain ⟨f, ps⟩ := t
  cases f with
  | importAttribute =>
      match ps with
      | [] => rfl
      | node f _ :: _ => cases f <;> rfl
  | _ => rfl

theorem isOwnName_respelled (t : Tree) : isOwnName t.respelled = isOwnName t := by
  obtain ⟨f, ps⟩ := t
  cases f <;> rfl

theorem isExportable_respelled (t : Tree) : isExportable t.respelled = isExportable t := by
  obtain ⟨f, ps⟩ := t
  cases f <;> rfl

theorem namesDefault_moved {text : List Char} {n n' : Cursor} (h : Matches text n n') :
    namesDefault n' = namesDefault n := by
  unfold namesDefault
  have hmoved := relation_moved h.toAccords h.behindRest false
  rw [h.token, h.rest]
  cases n.token with
  | name w e =>
      dsimp only [Token.respelled]
      generalize moved n false n.rest = x at hmoved
      generalize moved n' false (plain n.rest) = y at hmoved
      cases hmoved with
      | none => rfl
      | some hd => rw [Option.map_some, Option.map_some, hd.token, isWord_respelled rfl]
  | _ => rfl

theorem modeBefore_foreign {w : String} (hw : foreign w.toList = true) (n : Cursor) (e : Bool) :
    modeBefore n (.name w e) = none := by
  unfold modeBefore
  split <;> first | rfl | cases ‹Token.name w e = _›
  all_goals cases hw

theorem modeBefore_moved {text : List Char} {n n' : Cursor} (h : Matches text n n') (t : Token) :
    modeBefore n' t.respelled = modeBefore n t := by
  cases t with
  | name w e =>
      rw [Token.respelled]
      cases hw : foreign w.toList with
      | true => rw [modeBefore_foreign hw, modeBefore_foreign hw]
      | false =>
          unfold modeBefore
          rw [Bool.or_false, namesDefault_moved h, h.token, respelled_beq rfl, isMark_respelled]
  | _ => rfl

theorem isText_respelled (t : Token) : isText t.respelled = isText t := by
  cases t <;> rfl

theorem namesOnLine_moved {text : List Char} {n n' : Cursor} (h : Matches text n n') :
    namesOnLine n' = namesOnLine n := by
  unfold namesOnLine
  rw [h.token, h.gap]
  cases n.token <;> rfl

theorem any_eq_of_relation {text : List Char} {p : Cursor → Bool}
    (hp : ∀ {n n'}, Matches text n n' → p n' = p n) {n n' : Option Cursor}
    (hn : Option.Rel (Matches text) n n') : n'.any p = n.any p := by
  cases hn with
  | none => rfl
  | some hn => exact hp hn

namespace Parallel

variable {text : List Char} {g : Grammar}

theorem moduleName : Parallel text respelled moduleName moduleName := by
  refine token.bind fun t => ?_
  cases t with
  | string v l raw => exact advance.bind fun _ => pure rfl
  | _ => exact failure

theorem externalName : Parallel text id externalName externalName := by
  refine token.bind fun t => ?_
  cases t with
  | name n e => exact advance.bind fun _ => pure rfl
  | string v l raw => exact (require _).bind fun _ => advance.bind fun _ => pure rfl
  | _ => exact failure

theorem importAttribute : Parallel text respelled importAttribute importAttribute := by
  have hvalue : ∀ key : Tree, Parallel text respelled
      (do
        Parser.expectMark .colon
        return node .importAttribute [key, ← Parser.moduleName])
      (do
        Parser.expectMark .colon
        return node .importAttribute [key.respelled, ← Parser.moduleName]) :=
    fun _ => (expectMark _).bind fun _ => moduleName.bind fun _ => pure rfl
  refine token.bind fun t => ?_
  cases t with
  | name n e => exact advance.bind fun _ => hvalue (leaf (.keyName n))
  | _ => exact moduleName.bind hvalue

theorem attributesBehind (isAssertion : Bool) :
    Parallel text respelled (attributesBehind isAssertion) (attributesBehind isAssertion) := by
  refine advance.bind fun _ => (expectMark _).bind fun _ => ?_
  refine (commaSeparated _ importAttribute).bind fun entries => ?_
  have hkeys : (entries.map respelled).map attributeKey = entries.map attributeKey := by
    rw [List.map_map]
    exact List.map_congr_left fun t _ => attributeKey_respelled t
  rw [hkeys]
  exact (require _).bind fun _ => built rfl _

theorem importAttributes : Parallel text respelled importAttributes importAttributes :=
  (atWord rfl).bind fun _ => ite (attributesBehind false) ((atWord rfl).bind fun _ =>
    isFresh.bind fun _ => ite (attributesBehind true) (pure rfl))

theorem moduleEnd : Parallel text (List.map respelled) moduleEnd moduleEnd :=
  moduleName.bind fun _ => importAttributes.bind fun _ => endStatement.bind fun _ => pure rfl

theorem typeWord : Parallel text id typeWord typeWord := by
  refine (atWord rfl).bind fun _ => ite (followingToken.bind fun t => ?_) (pure rfl)
  cases t <;> exact advanceIf (pure rfl)

theorem importedAs : Parallel text id importedAs importedAs :=
  anyName.bind fun _ => (require _).bind fun _ => pure rfl

theorem importSpecifier : Parallel text respelled importSpecifier importSpecifier := by
  refine typeWord.bind fun isType => token.bind fun t => followingToken.bind fun u => ?_
  cases t
  case name n e =>
    rw [Token.respelled]
    dsimp only
    rw [isWord_respelled rfl]
    refine ite ?_ (importedAs.bind fun _ => pure rfl)
    exact advance.bind fun _ => advance.bind fun _ => importedAs.bind fun _ => pure rfl
  all_goals
    refine externalName.bind fun _ => (expectWord rfl).bind fun _ => ?_
    exact importedAs.bind fun _ => pure rfl

theorem importClause (s : Scope) :
    Parallel text (List.map respelled) (importClause s) (importClause s) := by
  refine (eatMark _).bind fun _ => ite (commaSeparated _ importSpecifier) ?_
  refine (eatToken rfl).bind fun _ => (require _).bind fun _ => (expectWord rfl).bind fun _ => ?_
  exact (variableName s).bind fun _ => pure rfl

theorem importMode : Parallel text id importMode importMode := by
  refine token.bind fun t => following_bind fun n n' hn => ?_
  have hmode : (n'.bind fun n => modeBefore n t.respelled) = n.bind fun n => modeBefore n t := by
    cases hn with
    | none => rfl
    | some hn => exact modeBefore_moved hn t
  rw [hmode]
  exact advanceIf (pure rfl)

theorem importAlias (name : String) :
    Parallel text respelled (importAlias name) (importAlias name) := by
  refine (atWord rfl).bind fun _ => followingToken.bind fun t => ?_
  rw [isMark_respelled]
  have hend : ∀ target : Tree, Parallel text respelled
      (do Parser.endStatement; Pure.pure (node (.importAlias name) [target]))
      (do Parser.endStatement; Pure.pure (node (.importAlias name) [target.respelled])) :=
    fun _ => endStatement.bind fun _ => pure rfl
  refine ite ?_ (Parallel.bind (f := respelled) (dottedName.map fun _ => rfl) hend)
  refine advance.bind fun _ => advance.bind fun _ => moduleName.bind fun module => ?_
  exact (expectMark _).bind fun _ => hend (node .required [module])

theorem importBehind (s : Scope) :
    Parallel text respelled (importBehind s) (importBehind s) := by
  refine importMode.bind fun mode => token.bind fun t => ?_
  have hbare : Parallel text respelled (do return node (.importFrom none true) (← Parser.moduleEnd))
      (do return node (.importFrom none true) (← Parser.moduleEnd)) :=
    moduleEnd.bind fun _ => built rfl _
  cases t
  case string v l raw => exact hbare
  case name n e =>
    refine (variableName s).bind fun name => token.bind fun t => ?_
    have hothers : Parallel text respelled
        (do
          let others ← if ← Parser.eatMark .comma then Parser.importClause s else Pure.pure []
          Parser.expectWord "from"
          return node (.importFrom mode false)
            ((← Parser.moduleEnd) ++ leaf (.importDefault name) :: others))
        (do
          let others ← if ← Parser.eatMark .comma then Parser.importClause s else Pure.pure []
          Parser.expectWord "from"
          return node (.importFrom mode false)
            ((← Parser.moduleEnd) ++ leaf (.importDefault name) :: others)) := by
      refine (eatMark _).bind fun _ => ?_
      refine iteThen (f := List.map respelled) (importClause s) (pure rfl) fun others => ?_
      refine (expectWord rfl).bind fun _ => moduleEnd.bind fun _ => pure ?_
      simp [Form.respelled]
    cases t with
    | string v l raw => exact hbare
    | assign op => cases op with
        | none => exact advance.bind fun _ => importAlias name
        | some op => exact hothers
    | _ => exact hothers
  all_goals
    refine (importClause s).bind fun _ => (expectWord rfl).bind fun _ => ?_
    exact moduleEnd.bind fun _ => built_append rfl _ _

theorem importStatement (s : Scope) :
    Parallel text respelled (importStatement s) (importStatement s) :=
  advance.bind fun _ => importBehind s

theorem exportSpecifier : Parallel text respelled exportSpecifier exportSpecifier :=
  typeWord.bind fun _ => externalName.bind fun _ => (eatWord rfl).bind fun _ =>
    ite (externalName.bind fun _ => pure rfl) (pure rfl)

theorem exportedNames (isType : Bool) :
    Parallel text respelled (exportedNames isType) (exportedNames isType) := by
  refine (commaSeparated _ exportSpecifier).bind fun names => (eatWord rfl).bind fun _ => ite ?_ ?_
  · exact moduleEnd.bind fun _ => built_append rfl _ _
  · have hall : (names.map respelled).all isOwnName = names.all isOwnName := by
      simp only [List.all_map, Function.comp_def, isOwnName_respelled]
    rw [hall]
    refine (require _).bind fun _ => endStatement.bind fun _ => pure ?_
    simp [Form.respelled, missing]

theorem exportedAll (isType : Bool) :
    Parallel text respelled (exportedAll isType) (exportedAll isType) := by
  refine (eatWord rfl).bind fun _ => ?_
  refine iteThen (f := id) (externalName.map fun _ => rfl) (pure rfl) fun name => ?_
  exact (expectWord rfl).bind fun _ => moduleEnd.bind fun _ => built rfl _

theorem exportedDefault (hg : Keeps text g) (s : Scope) (ds : Tree) :
    Parallel text respelled (exportedDefault g s ds) (exportedDefault g s ds.respelled) := by
  refine functionStart.bind fun isAsync => ?_
  cases isAsync with
  | some isAsync =>
      rw [isEmpty_parts_respelled]
      refine (require _).bind fun _ => advanceIf ?_
      exact (functionExpression hg isAsync).bind fun _ => pure rfl
  | none =>
      refine (atMark _).bind fun _ => ?_
      refine iteThen (f := respelled) (decorators hg s) (pure rfl) fun ds => ?_
      dsimp only
      rw [isEmpty_parts_respelled]
      refine (atWord rfl).bind fun _ => ite ((classFrom hg s ds).bind fun _ => pure rfl) ?_
      exact (hg _).bind fun _ => endStatement.bind fun _ => pure rfl

theorem typeTitle : Parallel text id typeTitle typeTitle :=
  advance.bind fun _ => anyName

theorem typeAlias (hg : Keeps text g) (s : Scope) :
    Parallel text respelled (typeAlias g s) (typeAlias g s) :=
  typeTitle.bind fun _ => (eatToken rfl).bind fun _ => (require _).bind fun _ =>
    (hg _).bind fun _ => endStatement.bind fun _ => pure rfl

theorem interface (hg : Keeps text g) (s : Scope) :
    Parallel text respelled (interface g s) (interface g s) :=
  typeTitle.bind fun _ => (interfaces hg s rfl).bind fun _ =>
    (objectType hg s).bind fun _ => pure rfl

theorem enumMember (hg : Keeps text g) (s : Scope) :
    Parallel text respelled (enumMember g s) (enumMember g s) := by
  refine token.bind fun t => ?_
  cases t
  case number | bigInt => exact failure_bind
  all_goals
    refine (propertyKey hg s).bind fun _ => (eatToken rfl).bind fun _ => ?_
    exact iteThen (f := respelled) (hg _) (pure rfl) fun _ => pure rfl

theorem enumeration (hg : Keeps text g) (s : Scope) (isConst : Bool) :
    Parallel text respelled (enumeration g s isConst) (enumeration g s isConst) :=
  typeTitle.bind fun _ => (expectMark _).bind fun _ =>
    (commaSeparated _ (enumMember hg s)).bind fun _ => built rfl _

theorem namespaceOf (hg : Keeps text g) (s : Scope) (word : String) :
    Parallel text respelled (namespaceOf g s word) (namespaceOf g s word) := by
  refine advance.bind fun _ => token.bind fun t => ?_
  cases t
  case string v l raw =>
    exact advance.bind fun _ => (functionBody hg s).bind fun _ => pure rfl
  all_goals
    exact Parallel.bind (f := id) (dottedName.map fun _ => rfl) fun _ =>
      (functionBody hg s).bind fun _ => pure rfl

theorem exportedType (hg : Keeps text g) (s : Scope) :
    Parallel text (Option.map respelled) (exportedType g s) (exportedType g s) := by
  refine following_bind fun n n' hn => token.bind fun t => ?_
  have hnamed : n'.any namesOnLine = n.any namesOnLine :=
    any_eq_of_relation namesOnLine_moved hn
  have henum : (n'.any fun n => n.token.isWord "enum") = n.any fun n => n.token.isWord "enum" :=
    any_eq_of_relation (fun hn => by rw [hn.token, isWord_respelled rfl]) hn
  have htext : (n'.any fun n => isText n.token) = n.any fun n => isText n.token :=
    any_eq_of_relation (fun hn => by rw [hn.token, isText_respelled]) hn
  rw [hnamed, henum, htext]
  cases t
  case name w e =>
    rw [Token.respelled]
    cases hw : foreign w.toList
    case true =>
      rw [Bool.or_true]
      split
      case h_8 =>
        split
        case h_8 => exact pure rfl
        all_goals cases ‹Token.name w true = _›
      all_goals
        rename_i he
        cases he
        cases hw
    case false =>
      rw [Bool.or_false]
      split
      · exact ite ((typeAlias hg s).map fun _ => rfl) (pure rfl)
      · exact ite ((interface hg s).map fun _ => rfl) (pure rfl)
      · exact (enumeration hg s false).map fun _ => rfl
      · refine ite ?_ (pure rfl)
        exact advance.bind fun _ => (enumeration hg s true).map fun _ => rfl
      · exact ite ((namespaceOf hg s _).map fun _ => rfl) (pure rfl)
      · exact ite ((namespaceOf hg s _).map fun _ => rfl) (pure rfl)
      · exact advance.bind fun _ => (importBehind s).map fun _ => rfl
      · exact pure rfl
  all_goals exact pure rfl

theorem exportedDeclaration (hg : Keeps text g) (s : Scope) (ds : Tree) :
    Parallel text respelled (exportedDeclaration g s ds)
      (exportedDeclaration g s ds.respelled) := by
  have hend : ∀ t : Tree, Parallel text respelled
      (do
        Parser.require (isExportable t)
        Pure.pure (node .exportDeclaration [t]))
      (do
        Parser.require (isExportable t.respelled)
        Pure.pure (node .exportDeclaration [t.respelled])) :=
    fun t => by
      rw [isExportable_respelled]
      exact (require _).bind fun _ => pure rfl
  unfold Parser.exportedDeclaration
  rw [isEmpty_parts_respelled]
  refine ite ((classFrom hg s ds).bind hend) ((exportedType hg s).bind fun t => ?_)
  cases t with
  | some t => exact hend t
  | none => exact (hg _).bind hend

theorem exportStatement (hg : Keeps text g) (s : Scope) (ds : Tree) :
    Parallel text respelled (exportStatement g s ds) (exportStatement g s ds.respelled) := by
  refine advance.bind fun _ => (atWord rfl).bind fun _ => followingToken.bind fun t => ?_
  rw [isMark_respelled, respelled_beq rfl, isEmpty_parts_respelled]
  refine (eatWord rfl).bind fun _ => ite (exportedDefault hg s ds) ?_
  refine ite (exportedDeclaration hg s ds) (advanceIf ?_)
  refine (eatMark _).bind fun _ => ite (exportedNames _) ?_
  refine (eatToken rfl).bind fun _ => ite (exportedAll _) ?_
  refine (atMark _).bind fun _ => ?_
  exact iteThen (f := respelled) (decorators hg s) (pure rfl) fun ds => exportedDeclaration hg s ds

end Parallel

end DefineBundle.Script.PlainForm
