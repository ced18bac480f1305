import PlainScript.Print.Printer
import Mathlib.Tactic.Lemma

/-! Two runs of the printer. One run has more room than another, or prints the same nodes at another place. It succeeds
where the other does, and it gives the same text if the places are the same. -/
namespace PlainScript.Print

section Echoes

variable {ε β γ : Type} {same : Prop} {x y : Except ε β} {f g : β → Except ε γ}

/-- The second computation succeeds where the first one does; if `same` holds, it gives the same. -/
def Echoes (same : Prop) (x y : Except ε β) : Prop := ∀ v, x = .ok v → ∃ w, y = .ok w ∧ (same → v = w)

lemma echoes_refl (x : Except ε β) : Echoes same x x := fun v hv => ⟨v, hv, fun _ => rfl⟩

lemma echoes_pure {v w : β} (h : same → v = w) : Echoes same (pure v : Except ε β) (pure w) := by
  rintro _ ⟨⟩
  exact ⟨w, rfl, h⟩

lemma echoes_error (e : ε) : Echoes same (throw e : Except ε β) y := nofun

lemma Echoes.trans {z : Except ε β} (hxy : Echoes same x y) (hyz : Echoes same y z) : Echoes same x z := by
  intro v hv
  obtain ⟨w, hw, hvw⟩ := hxy v hv
  obtain ⟨u, hu, hwu⟩ := hyz w hw
  exact ⟨u, hu, fun h => (hvw h).trans (hwu h)⟩

lemma Echoes.ok {v : β} (h : Echoes True x y) (hv : x = .ok v) : y = .ok v := by
  obtain ⟨w, hw, heq⟩ := h v hv
  rw [hw, heq trivial]

lemma Echoes.bind (h : Echoes same x y) (hf : ∀ v w, (same → v = w) → Echoes same (f v) (g w)) :
    Echoes same (x >>= f) (y >>= g) := by
  intro u hu
  cases x with
  | error e => cases hu
  | ok v =>
    obtain ⟨w, rfl, hvw⟩ := h v rfl
    exact hf v w hvw u hu

/-- What is found in the same place goes on in the same way. -/
lemma echoes_bind_same (x : Except ε β) (hf : ∀ v, Echoes same (f v) (g v)) : Echoes same (x >>= f) (x >>= g) := by
  intro u hu
  cases x with
  | error e => cases hu
  | ok v => exact hf v u hu

lemma Echoes.bind_pure {p q : β → γ} (h : Echoes same x y) (hpq : same → p = q) :
    Echoes same (x >>= fun v => pure (p v)) (y >>= fun w => pure (q w)) :=
  h.bind fun v w hvw => echoes_pure fun hs => by rw [hpq hs, hvw hs]

lemma echoes_mapM {δ : Type} {f g : δ → Except ε β} (h : ∀ a, Echoes same (f a) (g a)) (xs : List δ) :
    Echoes same (xs.mapM f) (xs.mapM g) := by
  induction xs with
  | nil => exact echoes_refl _
  | cons a xs ih =>
    rw [List.mapM_cons, List.mapM_cons]
    refine (h a).bind fun v w hvw => ih.bind fun vs ws hvws => echoes_pure fun hs => ?_
    rw [hvw hs, hvws hs]

end Echoes

/-- The same part of a text, perhaps at another place. -/
inductive Part.Like (same : Prop) : Part → Part → Prop
  | statement {i j : Nat} (hindent : same → i = j) : Like same (.statement i) (.statement j)
  | expression {i j l m : Nat} (hindent : same → i = j) (hleast : same → l = m) :
    Like same (.expression i l) (.expression j m)

lemma Part.Like.refl {same : Prop} (p : Part) : Part.Like same p p := by
  cases p with
  | statement => exact .statement fun _ => rfl
  | expression => exact .expression (fun _ => rfl) fun _ => rfl

variable {α : Type} {source : NodeSource α} {inner inner' : Part → α → Except PrintError Text} {same : Prop}
  {i j l m : Nat}

/-- One printer of parts succeeds where another one does, and gives the same text at the same place. -/
def Mirrors (same : Prop) (inner inner' : Part → α → Except PrintError Text) : Prop :=
  ∀ p q x, Part.Like same p q → Echoes same (inner p x) (inner' q x)

namespace Mirrors

variable (h : Mirrors same inner inner') (hi : same → i = j)
include h hi

lemma statement (x : α) : Echoes same (inner (.statement i) x) (inner' (.statement j) x) := h _ _ x (.statement hi)

lemma part (hl : same → l = m) (x : α) : Echoes same (inner (.expression i l) x) (inner' (.expression j m) x) :=
  h _ _ x (.expression hi hl)

lemma expression (hl : same → l = m) (what : Text) (slot : Option α) :
    Echoes same (Print.expression source inner i l what slot) (Print.expression source inner' j m what slot) :=
  echoes_bind_same _ fun _ => h.part hi hl _

lemma statementLine (slot : Option α) :
    Echoes same (Print.statementLine source inner i slot) (Print.statementLine source inner' j slot) :=
  echoes_bind_same _ fun r => (h.statement hi r.1).bind_pure fun hs => by rw [hi hs]

lemma statementLines (body : List (Option α)) (trailing : List Text) :
    Echoes same (Print.statementLines source inner i body trailing)
      (Print.statementLines source inner' j body trailing) :=
  (echoes_mapM (h.statementLine hi) body).bind_pure fun hs => by rw [hi hs]

lemma block (slot : Option α) : Echoes same (Print.block source inner i slot) (Print.block source inner' j slot) := by
  refine echoes_bind_same _ fun r => ?_
  dsimp only
  split
  · split
    · exact echoes_refl _
    · exact (h.statementLines (fun hs => by rw [hi hs]) _ _).bind_pure fun hs => by rw [hi hs]
  · exact echoes_error _

lemma nested (slot : Option α) :
    Echoes same (Print.nested source inner i slot) (Print.nested source inner' j slot) := by
  refine echoes_bind_same _ fun r => ?_
  dsimp only
  split
  · exact (h.block hi slot).bind_pure fun _ => rfl
  · refine (h.statement (fun hs => by rw [hi hs]) _).bind fun v w hvw => ?_
    split
    · exact echoes_pure fun hs => by rw [hvw hs]
    · exact echoes_pure fun hs => by rw [hvw hs, hi hs]

lemma declarator (slot : Option α) :
    Echoes same (Print.declarator source inner i slot) (Print.declarator source inner' j slot) := by
  refine echoes_bind_same _ fun r => ?_
  dsimp only
  split
  · refine (h.expression hi (fun _ => rfl) _ _).bind fun v w hvw => ?_
    split
    · exact echoes_pure hvw
    · exact (h.part hi (fun _ => rfl) _).bind_pure fun hs => by rw [hvw hs]
  · exact echoes_error _

lemma variableDeclaration (keyword : Text) (declarations : List (Option α)) :
    Echoes same (Print.variableDeclaration source inner i keyword declarations)
      (Print.variableDeclaration source inner' j keyword declarations) := by
  unfold Print.variableDeclaration
  split
  · exact echoes_error _
  · exact (echoes_mapM (h.declarator hi) declarations).bind_pure fun _ => rfl

lemma forHead (x : α) : Echoes same (Print.forHead source inner i x) (Print.forHead source inner' j x) := by
  unfold Print.forHead
  split
  · exact h.variableDeclaration hi _ _
  · exact h.part hi (fun _ => rfl) _

lemma parameters (params : List (Option α)) :
    Echoes same (Print.parameters source inner i params) (Print.parameters source inner' j params) :=
  (echoes_mapM (h.expression hi (fun _ => rfl) _) params).bind_pure fun _ => rfl

lemma functionRest (params : List (Option α)) (body : Option α) :
    Echoes same (Print.functionRest source inner i params body) (Print.functionRest source inner' j params body) :=
  (h.parameters hi params).bind fun _ _ hvw => (h.block hi body).bind_pure fun hs => by rw [hvw hs]

lemma propertyKey (key : Option α) (computed : Bool) :
    Echoes same (Print.propertyKey source inner i key computed) (Print.propertyKey source inner' j key computed) := by
  unfold Print.propertyKey
  split
  · exact (h.expression hi (fun _ => rfl) _ _).bind_pure fun _ => rfl
  · exact h.expression hi (fun _ => rfl) _ _

lemma method (key value : Option α) (kind : PropertyKind) (computed : Bool) :
    Echoes same (Print.method source inner i key value kind computed)
      (Print.method source inner' j key value kind computed) := by
  refine echoes_bind_same _ fun r => ?_
  dsimp only
  split
  · exact (h.functionRest hi _ _).bind fun _ _ hrest => (h.propertyKey hi _ _).bind_pure fun hs => by rw [hrest hs]
  · exact echoes_error _

lemma property (key value : Option α) (kind : PropertyKind) (computed shorthand isStatic : Bool) :
    Echoes same (Print.property source inner i key value kind computed shorthand isStatic)
      (Print.property source inner' j key value kind computed shorthand isStatic) := by
  cases kind with
  | spread => exact (h.expression hi (fun _ => rfl) _ _).bind_pure fun _ => rfl
  | init =>
    refine (h.expression hi (fun _ => rfl) _ _).bind fun v w hvw => ?_
    split
    · exact echoes_pure hvw
    · exact (h.propertyKey hi _ _).bind_pure fun hs => by rw [hvw hs]
  | field =>
    refine (h.propertyKey hi _ _).bind fun v w hvw => ?_
    split
    · exact echoes_pure fun hs => by rw [hvw hs]
    · exact (h.part hi (fun _ => rfl) _).bind_pure fun hs => by rw [hvw hs]
  | get | set | method => exact (h.method hi _ _ _ _).bind_pure fun _ => rfl

lemma classMember (slot : Option α) :
    Echoes same (Print.classMember source inner i slot) (Print.classMember source inner' j slot) := by
  refine echoes_bind_same _ fun r => ?_
  dsimp only
  split
  · exact (h.property hi _ _ _ _ _ _).bind_pure fun hs => by rw [hi hs]
  · exact echoes_error _

lemma classRest {head head' : Text} (hhead : same → head = head') (members : List (Option α)) :
    Echoes same
      (if members.isEmpty then pure (head ++ emptyBraces)
        else do return head ++ braced i (← members.mapM (Print.classMember source inner (i + 1))))
      (if members.isEmpty then pure (head' ++ emptyBraces)
        else do return head' ++ braced j (← members.mapM (Print.classMember source inner' (j + 1)))) := by
  split
  · exact echoes_pure fun hs => by rw [hhead hs]
  · exact (echoes_mapM (h.classMember fun hs => by rw [hi hs]) members).bind_pure fun hs => by rw [hhead hs, hi hs]

lemma classText (name : Text) (superClass : Option α) (members : List (Option α)) :
    Echoes same (Print.classText source inner i name superClass members)
      (Print.classText source inner' j name superClass members) := by
  unfold Print.classText
  cases superClass with
  | none => exact h.classRest hi (fun _ => rfl) members
  | some a =>
    refine (h.part hi (fun _ => rfl) a).bind fun v w hvw => ?_
    exact h.classRest hi (fun hs => by rw [hvw hs]) members

lemma switchClause (slot : Option α) :
    Echoes same (Print.switchClause source inner i slot) (Print.switchClause source inner' j slot) := by
  refine echoes_bind_same _ fun r => ?_
  dsimp only
  split
  · next test consequent _ =>
    have hbody : Echoes same (Print.statementLines source inner (i + 1) consequent [])
        (Print.statementLines source inner' (j + 1) consequent []) :=
      h.statementLines (fun hs => by rw [hi hs]) consequent []
    cases test with
    | none => exact hbody.bind_pure fun hs => by rw [hi hs]
    | some a => exact (h.part hi (fun _ => rfl) a).bind fun _ _ hvw => hbody.bind_pure fun hs => by rw [hvw hs, hi hs]
  · exact echoes_error _

lemma switchText (discriminant : Option α) (cases : List (Option α)) (trailing : List Text) :
    Echoes same (Print.switchText source inner i discriminant cases trailing)
      (Print.switchText source inner' j discriminant cases trailing) := by
  refine (h.expression hi (fun _ => rfl) _ _).bind fun v w hvw => ?_
  dsimp only
  split
  · exact echoes_pure fun hs => by rw [hvw hs]
  · exact (echoes_mapM (h.switchClause fun hs => by rw [hi hs]) cases).bind_pure fun hs => by rw [hvw hs, hi hs]

lemma tryEnd {start start' : Text} (hstart : same → start = start') (handler finalizer : Option α) :
    Echoes same
      (do
        let final : Text ← match finalizer with
          | none => pure []
          | some _ => pure (" finally " ++ (← Print.block source inner i finalizer))
        if handler.isNone && finalizer.isNone then throw .tryAlone
        return start ++ final)
      (do
        let final : Text ← match finalizer with
          | none => pure []
          | some _ => pure (" finally " ++ (← Print.block source inner' j finalizer))
        if handler.isNone && finalizer.isNone then throw .tryAlone
        return start' ++ final) := by
  cases finalizer with
  | none =>
    cases handler with
    | none => exact echoes_error PrintError.tryAlone
    | some _ => exact echoes_pure fun hs => by rw [hstart hs]
  | some b =>
    have hfinal : Echoes same (Print.block source inner i (some b)) (Print.block source inner' j (some b)) :=
      h.block hi (some b)
    cases handler <;> exact hfinal.bind_pure fun hs => by rw [hstart hs]

lemma tryText (body param handler finalizer : Option α) :
    Echoes same (Print.tryText source inner i body param handler finalizer)
      (Print.tryText source inner' j body param handler finalizer) := by
  refine (h.block hi body).bind fun v w hvw => ?_
  cases handler with
  | none => exact h.tryEnd hi (fun hs => by rw [hvw hs]) none finalizer
  | some b =>
    cases param with
    | none =>
      refine (h.block hi (some b)).bind fun c d hcd => ?_
      exact h.tryEnd hi (fun hs => by rw [hvw hs, hcd hs]) (some b) finalizer
    | some a =>
      refine (h.part hi (fun _ => rfl) a).bind fun p q hpq => (h.block hi (some b)).bind fun c d hcd => ?_
      exact h.tryEnd hi (fun hs => by rw [hvw hs, hcd hs, hpq hs]) (some b) finalizer

lemma ifText (test consequent alternate : Option α) :
    Echoes same (Print.ifText source inner i test consequent alternate)
      (Print.ifText source inner' j test consequent alternate) := by
  have hdeep : same → i + 1 = j + 1 := fun hs => by rw [hi hs]
  refine (h.expression hi (fun _ => rfl) _ _).bind fun head head' hhead => echoes_bind_same _ fun r => ?_
  have hother {start start' : Text} (hstart : same → start = start') :
      Echoes same
        (do
          let other : Text ← match alternate with
            | none => pure []
            | some a =>
              let chains := (source.node? a).any fun n => n.payload.kind == .ifStatement && n.leading.isEmpty
              if chains then pure (" else " ++ (← inner (.statement i) a))
              else pure (" else" ++ (← Print.nested source inner i alternate))
          return start ++ other)
        (do
          let other : Text ← match alternate with
            | none => pure []
            | some a =>
              let chains := (source.node? a).any fun n => n.payload.kind == .ifStatement && n.leading.isEmpty
              if chains then pure (" else " ++ (← inner' (.statement j) a))
              else pure (" else" ++ (← Print.nested source inner' j alternate))
          return start' ++ other) := by
    cases alternate with
    | none => exact echoes_pure fun hs => by rw [hstart hs]
    | some a =>
      dsimp only
      split
      · exact (h.statement hi a).bind_pure fun hs => by rw [hstart hs]
      · exact (h.nested hi _).bind_pure fun hs => by rw [hstart hs]
  dsimp only
  split
  · refine (h.statement hdeep _).bind fun v w hvw => ?_
    exact hother fun hs => by rw [hhead hs, hvw hs, hi hs]
  · refine (h.nested hi _).bind fun v w hvw => ?_
    exact hother fun hs => by rw [hhead hs, hvw hs]

lemma optionalPart (slot : Option α) :
    Echoes same (Print.optionalPart inner i slot) (Print.optionalPart inner' j slot) := by
  cases slot with
  | none => exact echoes_refl _
  | some a => exact (h.part hi (fun _ => rfl) a).bind_pure fun _ => rfl

lemma statementText (x : α) (node : Node α) :
    Echoes same (Print.statementText source inner i x node) (Print.statementText source inner' j x node) := by
  unfold Print.statementText
  cases node.payload <;> dsimp only
  case variableDeclaration => exact (h.variableDeclaration hi _ _).bind_pure fun _ => rfl
  case functionDeclaration => exact (h.functionRest hi _ _).bind_pure fun _ => rfl
  case classDeclaration => exact h.classText hi _ _ _
  case returnStatement => exact (h.optionalPart hi _).bind_pure fun _ => rfl
  case ifStatement => exact h.ifText hi _ _ _
  case whileStatement =>
    exact (h.nested hi _).bind fun _ _ hbody => (h.expression hi (fun _ => rfl) _ _).bind_pure fun hs => by rw [hbody hs]
  case doWhileStatement =>
    exact (h.expression hi (fun _ => rfl) _ _).bind fun _ _ htest => (h.nested hi _).bind_pure fun hs => by rw [htest hs]
  case forStatement init test update body =>
    have hrest {start start' : Text} (hstart : same → start = start') :
        Echoes same
          (do
            let test ← Print.optionalPart inner i test
            let update ← Print.optionalPart inner i update
            return "for (" ++ start ++ ";" ++ test ++ ";" ++ update ++ ")" ++ (← Print.nested source inner i body))
          (do
            let test ← Print.optionalPart inner' j test
            let update ← Print.optionalPart inner' j update
            return "for (" ++ start' ++ ";" ++ test ++ ";" ++ update ++ ")" ++ (← Print.nested source inner' j body)) :=
      (h.optionalPart hi test).bind fun _ _ htest => (h.optionalPart hi update).bind fun _ _ hupdate =>
        (h.nested hi body).bind_pure fun hs => by rw [hstart hs, htest hs, hupdate hs]
    cases init with
    | none => exact hrest fun _ => rfl
    | some a => exact (h.forHead hi a).bind fun v w hvw => hrest hvw
  case forInStatement =>
    exact echoes_bind_same _ fun r => (h.forHead hi _).bind fun _ _ hleft =>
      (h.expression hi (fun _ => rfl) _ _).bind fun _ _ hright =>
        (h.nested hi _).bind_pure fun hs => by rw [hleft hs, hright hs]
  case blockStatement => exact h.block hi _
  case expressionStatement => exact (h.expression hi (fun _ => rfl) _ _).bind_pure fun _ => rfl
  case switchStatement => exact h.switchText hi _ _ _
  case throwStatement => exact (h.expression hi (fun _ => rfl) _ _).bind_pure fun _ => rfl
  case tryStatement => exact h.tryText hi _ _ _ _
  case labeledStatement =>
    refine echoes_bind_same _ fun r => ?_
    split
    · exact (h.statement hi _).bind_pure fun _ => rfl
    · exact (h.nested hi _).bind_pure fun _ => rfl
  all_goals exact echoes_refl _

lemma arrayText (elements : List (Option α)) :
    Echoes same (Print.arrayText inner i elements) (Print.arrayText inner' j elements) := by
  refine (echoes_mapM (fun slot => ?_) elements).bind_pure fun _ => rfl
  cases slot with
  | none => exact echoes_refl _
  | some a => exact h.part hi (fun _ => rfl) a

lemma objectProperty (slot : Option α) :
    Echoes same (Print.objectProperty source inner i slot) (Print.objectProperty source inner' j slot) := by
  refine echoes_bind_same _ fun r => ?_
  dsimp only
  split
  · exact h.property hi _ _ _ _ _ _
  · exact echoes_error _

lemma arrowText (params : List (Option α)) (body : Option α) (isAsync : Bool) :
    Echoes same (Print.arrowText source inner i params body isAsync)
      (Print.arrowText source inner' j params body isAsync) := by
  refine (h.parameters hi params).bind fun _ _ hparams => echoes_bind_same _ fun r => ?_
  dsimp only
  split
  · exact (h.block hi _).bind_pure fun hs => by rw [hparams hs]
  · exact (h.part hi (fun _ => rfl) _).bind_pure fun hs => by rw [hparams hs]

lemma unaryText (op : Text) (argument : Option α) :
    Echoes same (Print.unaryText source inner i op argument) (Print.unaryText source inner' j op argument) := by
  unfold Print.unaryText
  split
  · cases argument with
    | none => exact echoes_refl _
    | some a => exact (h.part hi (fun _ => rfl) a).bind_pure fun _ => rfl
  · exact (h.expression hi (fun _ => rfl) _ _).bind_pure fun _ => rfl

lemma chainLink (opLevel : Nat) (link : Text × Option α) :
    Echoes same (Print.chainLink source inner i opLevel link) (Print.chainLink source inner' j opLevel link) :=
  echoes_bind_same _ fun _ => (h.part hi (fun _ => rfl) _).bind_pure fun _ => rfl

lemma binaryText (op : Text) (left right : Option α) :
    Echoes same (Print.binaryText source inner i op left right) (Print.binaryText source inner' j op left right) := by
  unfold Print.binaryText
  dsimp only
  split
  · exact echoes_error _
  split
  · exact (h.expression hi (fun _ => rfl) _ _).bind fun _ _ hright =>
      (h.expression hi (fun _ => rfl) _ _).bind_pure fun hs => by rw [hright hs]
  · exact echoes_bind_same _ fun _ => (h.part hi (fun _ => rfl) _).bind fun _ _ hhead =>
      (echoes_mapM (h.chainLink hi _) _).bind_pure fun hs => by rw [hhead hs]

lemma argumentsText (args : List (Option α)) :
    Echoes same (Print.argumentsText source inner i args) (Print.argumentsText source inner' j args) :=
  (echoes_mapM (h.expression hi (fun _ => rfl) _) args).bind_pure fun _ => rfl

lemma newText (callee : Option α) (args : List (Option α)) :
    Echoes same (Print.newText source inner i callee args) (Print.newText source inner' j callee args) :=
  echoes_bind_same _ fun _ => (h.argumentsText hi args).bind fun _ _ hargs =>
    (h.part hi (fun _ => rfl) _).bind_pure fun hs => by rw [hargs hs]

lemma memberText (object name : Option α) (computed optional : Bool) :
    Echoes same (Print.memberText source inner i object name computed optional)
      (Print.memberText source inner' j object name computed optional) := by
  refine echoes_bind_same _ fun r => (h.part hi (fun _ => rfl) _).bind fun v w hvw => echoes_bind_same _ fun p => ?_
  dsimp only
  split
  · exact (h.part hi (fun _ => rfl) _).bind_pure fun hs => by rw [hvw hs]
  split
  · exact echoes_pure fun hs => by rw [hvw hs]
  · exact echoes_error _

lemma expressionText (node : Node α) :
    Echoes same (Print.expressionText source inner i node) (Print.expressionText source inner' j node) := by
  have operand (least : Nat) (what : Text) (slot : Option α) :
      Echoes same (Print.expression source inner i least what slot)
      (Print.expression source inner' j least what slot) :=
    h.expression hi (fun _ => rfl) what slot
  unfold Print.expressionText
  cases node.payload <;> dsimp only
  case taggedTemplateExpression =>
    exact (operand _ _ _).bind fun _ _ hquasi => (operand _ _ _).bind_pure fun hs => by rw [hquasi hs]
  case arrayExpression => exact h.arrayText hi _
  case objectExpression => exact (echoes_mapM (h.objectProperty hi) _).bind_pure fun _ => rfl
  case property => exact h.property hi _ _ _ _ _ _
  case functionExpression => exact (h.functionRest hi _ _).bind_pure fun _ => rfl
  case arrowFunctionExpression => exact h.arrowText hi _ _ _
  case classExpression => exact h.classText hi _ _ _
  case unaryExpression => exact h.unaryText hi _ _
  case updateExpression =>
    split
    · exact (operand _ _ _).bind_pure fun _ => rfl
    · exact (operand _ _ _).bind_pure fun _ => rfl
  case binaryExpression => exact h.binaryText hi _ _ _
  case assignmentExpression =>
    exact (operand _ _ _).bind fun _ _ hright => (operand _ _ _).bind_pure fun hs => by rw [hright hs]
  case conditionalExpression =>
    exact (operand _ _ _).bind fun _ _ halternate => (operand _ _ _).bind fun _ _ hconsequent =>
      (operand _ _ _).bind_pure fun hs => by rw [halternate hs, hconsequent hs]
  case callExpression =>
    exact (operand _ _ _).bind fun _ _ hcallee => (h.argumentsText hi _).bind_pure fun hs => by rw [hcallee hs]
  case newExpression => exact h.newText hi _ _
  case memberExpression => exact h.memberText hi _ _ _ _
  case sequenceExpression =>
    split
    · exact echoes_error _
    · exact (echoes_mapM (operand _ _) _).bind_pure fun _ => rfl
  case spreadElement => exact (operand _ _ _).bind_pure fun _ => rfl
  all_goals exact echoes_refl _

end Mirrors

/-- What is printed inside a part decides about its text. -/
lemma Mirrors.partText (h : Mirrors same inner inner') :
    Mirrors same (partText source inner) (partText source inner') := by
  intro p q x hlike
  cases hlike with
  | statement hi => exact echoes_bind_same _ fun r => h.statementText hi x r.2
  | expression hi hl =>
    exact echoes_bind_same _ fun r => (h.expressionText hi r.2).bind fun v w hvw => echoes_pure fun hs => by
      rw [hvw hs, hl hs]

/-- A printer with more room prints what it prints with less, whatever its limit is called. -/
theorem mirrors_partUpTo (source : NodeSource α) (same : Prop) (limit limit' : Int) {n m : Nat} (hle : n ≤ m) :
    Mirrors same (partUpTo source limit n) (partUpTo source limit' m) := by
  induction n generalizing m with
  | zero => exact fun p q x _ => echoes_error _
  | succ n ih =>
    obtain ⟨m, rfl⟩ := Nat.exists_eq_add_of_le' (Nat.one_le_of_lt hle)
    exact (ih (Nat.le_of_succ_le_succ hle)).partText

end PlainScript.Print
