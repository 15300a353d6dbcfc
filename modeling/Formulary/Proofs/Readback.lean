import Formulary.Proofs.Separation
import Formulary.Proofs.Sessions

/-!
# The listing determines the module

From the text of a module that a session has made, all of its live routines can be told: which are
declared and which are defined, their names, how many parameters they have and, for those with a
body, how these are called, and every instruction with its operands. Only places, slots that are
empty and the names of the parameters of declarations do not show.

* `CodeModule.shown`: the live routines with all that shows in a listing.
* `Body.operand_eq`: operands are told by their texts.
* `Body.operation_eq`: operations are told by their texts, called routines by what they are referred
  to.
* `CodeModule.routineLines_eq`: routines are told by their lines.
* `text_determines_routines`: modules with the same text hold the same routines.
-/

namespace Formulary

open CodeModule

/-! ## What shows in a listing -/

/-- The place of a routine among the live ones. -/
def CodeModule.position (m : CodeModule) (id : RoutineId) : RoutineId :=
  ⟨(m.live.map (·.1)).idxOf id⟩

/-- A declaration shows how many parameters it has, but not their names. -/
def Routine.shown (r : Routine) : Routine :=
  if r.isDeclaration then ⟨r.name, r.params.map fun _ => "", none⟩ else r

/-- The live routines in order, with calls to their places among these, and without the names of
    the parameters of declarations. -/
def CodeModule.shown (m : CodeModule) : List Routine :=
  m.live.map fun p => (p.2.renumber m.position).shown

/-! ## Operands -/

section Texts

variable {name name' : String}

theorem toList_localName (name : String) : (localName name).toList = '%' :: name.toList := by
  rw [localName, String.toList_append]
  rfl

theorem localName_injective (h : localName name = localName name') : name = name' :=
  (String.append_right_inj "%").mp h

theorem atomic_localName (h : isWord name.toList = true) : Atomic (localName name).toList := by
  rw [toList_localName, atomic_cons]
  exact ⟨by decide, atomic_of_isWord h⟩

theorem atomic_localName? {name? : Option String}
    (h : ∀ name, name? = some name → isWord name.toList = true) :
    Atomic (localName? name?).toList := by
  cases name? with
  | none =>
    show Atomic "%<undef>".toList
    decide
  | some name => exact atomic_localName (h name rfl)

/-- The text of a truth value. -/
def truthText (flag : Bool) : String := if flag then "true" else "false"

theorem atomic_truthText (flag : Bool) : Atomic (truthText flag).toList := by
  cases flag <;> decide

theorem constantText_ne_localName (x : Double) (name : String) :
    x.constantText ≠ localName name := by
  intro h
  obtain ⟨c, d, rest, htext, hc, -⟩ := x.constantText_shape
  rw [h, toList_localName] at htext
  exact hc (List.cons.inj htext).1.symm

theorem constantText_ne_truthText (x : Double) (flag : Bool) : x.constantText ≠ truthText flag := by
  intro h
  obtain ⟨c, d, rest, htext, -, hshape⟩ := x.constantText_shape
  rw [h] at htext
  cases flag with
  | false =>
    have hchars : 'f' :: 'a' :: 'l' :: 's' :: ['e'] = c :: d :: rest := htext
    simp only [List.cons.injEq] at hchars
    obtain ⟨rfl, rfl, -⟩ := hchars
    simp at hshape
  | true =>
    have hchars : 't' :: 'r' :: 'u' :: ['e'] = c :: d :: rest := htext
    simp only [List.cons.injEq] at hchars
    obtain ⟨rfl, rfl, -⟩ := hchars
    simp at hshape

theorem truthText_ne_localName (flag : Bool) (name : String) : truthText flag ≠ localName name := by
  intro h
  have hchars := congrArg String.toList h
  rw [toList_localName] at hchars
  cases flag <;> exact absurd (List.cons.inj hchars).1 (by decide)

theorem truthText_injective {flag flag' : Bool} (h : truthText flag = truthText flag') :
    flag = flag' := by
  revert h
  cases flag <;> cases flag' <;> decide

end Texts

section Operands

variable {body body' : Body} {params : List String} {position position' : Nat}
  {t t' : ValueType} {v w : Value}

/-- The operand with a number among the parameters and results. -/
def localAt (arity k : Nat) : Value := if k < arity then .param k else .result (k - arity)

theorem Usable.operandText_cases (h : Usable body.instructions params.length position t v) :
    (∃ x, v = .constant x ∧ body.operandText params v = x.constantText) ∨
      (∃ flag, v = .truth flag ∧ body.operandText params v = truthText flag) ∨
      ∃ k name, v = localAt params.length k ∧
        (localNames params body.instructions)[k]? = some name ∧
        body.operandText params v = localName name := by
  cases h with
  | constant x => exact .inl ⟨x, rfl, rfl⟩
  | truth flag => exact .inr (.inl ⟨flag, rfl, rfl⟩)
  | @param index hindex =>
    refine .inr (.inr ⟨index, params[index], by rw [localAt, if_pos hindex], ?_, ?_⟩)
    · rw [localNames, List.getElem?_append_left hindex, List.getElem?_eq_getElem hindex]
    · rw [Body.operandText, List.getElem?_eq_getElem hindex]
      rfl
  | @result earlier i hearlier hi =>
    refine .inr (.inr ⟨params.length + earlier, i.name, ?_, ?_, ?_⟩)
    · rw [localAt, if_neg (by omega), Nat.add_sub_cancel_left]
    · rw [localNames, List.getElem?_append_right (by omega), Nat.add_sub_cancel_left,
        List.getElem?_map, Array.getElem?_toList, hi, Option.map_some]
    · rw [Body.operandText, hi]
      rfl

/-- Operands are told by their texts where names are told apart. -/
theorem Body.operand_eq (hv : Usable body.instructions params.length position t v)
    (hw : Usable body'.instructions params.length position' t' w)
    (hlocals : localNames params body.instructions = localNames params body'.instructions)
    (hnodup : (localNames params body.instructions).Nodup)
    (h : body.operandText params v = body'.operandText params w) : v = w := by
  rcases hv.operandText_cases with ⟨x, rfl, hx⟩ | ⟨flag, rfl, hx⟩ | ⟨k, name, hk, hname, hx⟩ <;>
    rcases hw.operandText_cases with
      ⟨y, rfl, hy⟩ | ⟨flag', rfl, hy⟩ | ⟨k', name', hk', hname', hy⟩ <;>
    rw [hx, hy] at h
  · rw [Double.constantText_injective h]
  · exact absurd h (constantText_ne_truthText x flag')
  · exact absurd h (constantText_ne_localName x name')
  · exact absurd h.symm (constantText_ne_truthText y flag)
  · rw [truthText_injective h]
  · exact absurd h (truthText_ne_localName flag name')
  · exact absurd h.symm (constantText_ne_localName y name)
  · exact absurd h.symm (truthText_ne_localName flag' name)
  · obtain rfl := localName_injective h
    obtain ⟨hlt, -⟩ := List.getElem?_eq_some_iff.mp hname
    rw [← hlocals, ← hname] at hname'
    rw [hk, hk', (List.getElem?_inj hlt hnodup).mp hname'.symm]

theorem Body.atomic_operandText
    (hwords : ∀ name ∈ localNames params body.instructions, isWord name.toList = true)
    (v : Value) : Atomic (body.operandText params v).toList := by
  cases v with
  | constant x => exact x.atomic_constantText
  | truth flag => exact atomic_truthText flag
  | param index =>
    apply atomic_localName?
    intro name hname
    exact hwords name (List.mem_append_left _ (List.mem_of_getElem? hname))
  | result k =>
    apply atomic_localName?
    intro name hname
    obtain ⟨i, hi, rfl⟩ := Option.map_eq_some_iff.mp hname
    refine hwords i.name (List.mem_append_right _ (List.mem_map_of_mem ?_))
    rw [← Array.getElem?_toList] at hi
    exact List.mem_of_getElem? hi

theorem toList_typedText (body : Body) (params : List String) (v : Value) :
    (body.typedText params v).toList =
      ((body.typeOf? v).getD .double).text.toList ++ ' ' :: (body.operandText params v).toList := by
  rw [Body.typedText, String.toList_append, String.toList_append, List.append_assoc]
  rfl

theorem ValueType.atomic_text (t : ValueType) : Atomic t.text.toList := by
  cases t <;> decide

theorem Body.operandText_of_typedText
    (h : body.typedText params v = body'.typedText params w) :
    body.operandText params v = body'.operandText params w := by
  have hchars := congrArg String.toList h
  rw [toList_typedText, toList_typedText] at hchars
  obtain ⟨-, hoperand⟩ := (ValueType.atomic_text _).append_inj (ValueType.atomic_text _)
    rfl rfl hchars
  exact String.toList_inj.mp hoperand

end Operands

/-! ## Operations -/

section Operations

variable {m m' : CodeModule} {body body' : Body} {params : List String} {position position' : Nat}
  {ρ ρ' : RoutineId → RoutineId}

theorem CodeModule.WellNamed.atomic_globalName (h : m.WellNamed) {id : RoutineId} {r : Routine}
    (hr : m.get? id = some r) : Atomic (m.globalName id).toList := by
  rw [globalName_of_get? hr, String.toList_append, atomic_append]
  refine ⟨by decide, ?_⟩
  split_ifs with hanon
  · exact atomic_of_digits fun c => isDigit_of_mem_toString
  · rcases h id r hr with hempty | hword
    · simp [Routine.isAnonymous, hempty] at hanon
    · exact atomic_of_isWord hword

/-- An operand with its type is a text without commas that is not empty. -/
theorem Body.typedText_item
    (hwords : ∀ name ∈ localNames params body.instructions, isWord name.toList = true) (v : Value) :
    body.typedText params v ≠ "" ∧ ',' ∉ (body.typedText params v).toList := by
  have hchars := toList_typedText body params v
  constructor
  · intro hempty
    rw [hempty] at hchars
    simp at hchars
  · rw [hchars, List.mem_append, List.mem_cons]
    rintro (hmem | hmem | hmem)
    · exact absurd (ValueType.atomic_text _ _ hmem) (by decide)
    · exact absurd hmem (by decide)
    · exact absurd (body.atomic_operandText hwords v _ hmem) (by decide)

theorem BinaryOp.text_append_injective {op op' : BinaryOp} {rest rest' : List Char}
    (h : op.text.toList ++ ' ' :: rest = op'.text.toList ++ ' ' :: rest') :
    op = op' ∧ rest = rest' := by
  cases op <;> cases op' <;> simp_all [BinaryOp.text]

theorem toList_binaryText (op : BinaryOp) (l r : Value) :
    (body.operationText m params (.binary op l r)).toList =
      op.text.toList ++ ' ' :: ("double ".toList ++ ((body.operandText params l).toList ++
        ',' :: ' ' :: (body.operandText params r).toList)) := by
  simp [Body.operationText, String.toList_append]

theorem toList_callText (callee : RoutineId) (args : List Value) :
    (body.operationText m params (.call callee args)).toList =
      "call double ".toList ++ ((m.globalName callee).toList ++
        '(' :: ((commaSeparated (args.map (body.typedText params))).toList ++ [')'])) := by
  simp [Body.operationText, String.toList_append]

theorem toList_ofTruthText (v : Value) :
    (body.operationText m params (.ofTruth v)).toList =
      "uitofp ".toList ++ ((body.typedText params v).toList ++ " to double".toList) := by
  simp [Body.operationText, String.toList_append]

/-- The first character tells what an instruction does. -/
theorem Body.operationText_head (operation : Operation) :
    (body.operationText m params operation).toList.head? =
      some (match operation with
        | .binary _ _ _ => 'f'
        | .ofTruth _ => 'u'
        | .call _ _ => 'c') := by
  cases operation with
  | binary op l r =>
    rw [toList_binaryText]
    cases op <;> rfl
  | ofTruth v =>
    rw [toList_ofTruthText]
    rfl
  | call callee args =>
    rw [toList_callText]
    rfl

/-- Operations are told by their texts, and called routines by what they are referred to. -/
theorem Body.operation_eq {operation operation' : Operation}
    (hop : Fits m body.instructions params.length position operation)
    (hop' : Fits m' body'.instructions params.length position' operation')
    (hnamed : m.WellNamed) (hnamed' : m'.WellNamed)
    (hlocals : localNames params body.instructions = localNames params body'.instructions)
    (hnodup : (localNames params body.instructions).Nodup)
    (hwords : ∀ name ∈ localNames params body.instructions, isWord name.toList = true)
    (hplaces : ∀ id id' r r', m.get? id = some r → m'.get? id' = some r' →
      m.globalName id = m'.globalName id' → ρ id = ρ' id')
    (h : body.operationText m params operation = body'.operationText m' params operation') :
    operation.renumber ρ = operation'.renumber ρ' := by
  have hwords' := hwords
  rw [hlocals] at hwords'
  have hhead := congrArg (·.toList.head?) h
  simp only [operationText_head, Option.some.injEq] at hhead
  have hchars := congrArg String.toList h
  cases hop with
  | binary op hl hr =>
    cases hop' with
    | binary op' hl' hr' =>
      rw [toList_binaryText, toList_binaryText] at hchars
      obtain ⟨rfl, hrest⟩ := BinaryOp.text_append_injective hchars
      obtain ⟨hleft, hright⟩ := (body.atomic_operandText hwords _).append_inj
        (body'.atomic_operandText hwords' _) rfl rfl (List.append_cancel_left hrest)
      have hright := String.toList_inj.mp (List.cons.inj hright).2
      rw [Operation.renumber, Operation.renumber,
        operand_eq hl hl' hlocals hnodup (String.toList_inj.mp hleft),
        operand_eq hr hr' hlocals hnodup hright]
    | ofTruth hv' => simp at hhead
    | call hcallee' hargs' => simp at hhead
  | ofTruth hv =>
    cases hop' with
    | binary op' hl' hr' => simp at hhead
    | ofTruth hv' =>
      rw [toList_ofTruthText, toList_ofTruthText] at hchars
      have htyped := List.append_cancel_right (List.append_cancel_left hchars)
      have hoperand := operandText_of_typedText (String.toList_inj.mp htyped)
      rw [Operation.renumber, Operation.renumber, operand_eq hv hv' hlocals hnodup hoperand]
    | call hcallee' hargs' => simp at hhead
  | @call callee args hcallee hargs =>
    cases hop' with
    | binary op' hl' hr' => simp at hhead
    | ofTruth hv' => simp at hhead
    | @call callee' args' hcallee' hargs' =>
      obtain ⟨r, hr, -⟩ := Option.map_eq_some_iff.mp hcallee
      obtain ⟨r', hr', -⟩ := Option.map_eq_some_iff.mp hcallee'
      rw [toList_callText, toList_callText] at hchars
      obtain ⟨hname, hlist⟩ := (hnamed.atomic_globalName hr).append_inj
        (hnamed'.atomic_globalName hr') rfl rfl (List.append_cancel_left hchars)
      have hitems := commaSeparated_injective
        (by simpa using fun v _ => body.typedText_item hwords v)
        (by simpa using fun v _ => body'.typedText_item hwords' v)
        (String.toList_inj.mp (List.append_cancel_right hlist))
      have hvalues : args = args' := by
        refine eq_of_map_eq hitems ?_
        intro v hv w hw htext
        exact operand_eq (hargs v hv) (hargs' w hw) hlocals hnodup (operandText_of_typedText htext)
      rw [Operation.renumber, Operation.renumber, hvalues,
        hplaces callee callee' r r' hr hr' (String.toList_inj.mp hname)]

end Operations

/-! ## Routines -/

section Routines

variable {m m' : CodeModule} {id id' : RoutineId} {r r' : Routine} {ρ ρ' : RoutineId → RoutineId}

theorem Body.instructionLine_eq {body body' : Body} {params params' : List String}
    {i i' : Instruction} (hword : isWord i.name.toList = true)
    (hword' : isWord i'.name.toList = true)
    (h : body.instructionLine m params i = body'.instructionLine m' params' i') :
    i.name = i'.name ∧
      body.operationText m params i.operation = body'.operationText m' params' i'.operation := by
  have htext : ∀ (m : CodeModule) (body : Body) params (i : Instruction),
      (body.instructionLine m params i).toList = "  ".toList ++ ((localName i.name).toList ++
        ' ' :: ("= ".toList ++ (body.operationText m params i.operation).toList)) := by
    intro m body params i
    simp [Body.instructionLine, String.toList_append]
  have hchars := congrArg String.toList h
  rw [htext, htext] at hchars
  obtain ⟨hname, hrest⟩ := (atomic_localName hword).append_inj (atomic_localName hword') rfl rfl
    (List.append_cancel_left hchars)
  exact ⟨localName_injective (String.toList_inj.mp hname),
    String.toList_inj.mp (List.append_cancel_left hrest)⟩

/-- What a routine is referred to and the list of its parameters are told from its first line. -/
theorem signature_eq {start final name name' : String} {items items' : List String}
    (hname : Atomic name.toList) (hname' : Atomic name'.toList)
    (hitems : ∀ t ∈ items, t ≠ "" ∧ ',' ∉ t.toList)
    (hitems' : ∀ t ∈ items', t ≠ "" ∧ ',' ∉ t.toList)
    (h : start ++ name ++ "(" ++ commaSeparated items ++ final =
      start ++ name' ++ "(" ++ commaSeparated items' ++ final) : name = name' ∧ items = items' := by
  have htext : ∀ (name : String) (items : List String),
      (start ++ name ++ "(" ++ commaSeparated items ++ final).toList = start.toList ++
        (name.toList ++ '(' :: ((commaSeparated items).toList ++ final.toList)) := by
    intro name items
    simp [String.toList_append]
  have hchars := congrArg String.toList h
  rw [htext, htext] at hchars
  obtain ⟨heq, hrest⟩ := hname.append_inj hname' rfl rfl (List.append_cancel_left hchars)
  exact ⟨String.toList_inj.mp heq, commaSeparated_injective hitems hitems'
    (String.toList_inj.mp (List.append_cancel_right hrest))⟩

/-- The name of a routine is told from what it is referred to. -/
theorem CodeModule.name_eq_of_globalName (hnamed : m.WellNamed) (hnamed' : m'.WellNamed)
    (hr : m.get? id = some r) (hr' : m'.get? id' = some r')
    (h : m.globalName id = m'.globalName id') : r.name = r'.name := by
  rw [globalName_of_get? hr, globalName_of_get? hr', String.append_right_inj] at h
  cases hanon : r.isAnonymous <;> cases hanon' : r'.isAnonymous <;>
    simp only [hanon, hanon', Bool.false_eq_true, ↓reduceIte] at h
  · exact h
  · exact absurd h (hnamed.name_ne_toString hr hanon _)
  · exact absurd h.symm (hnamed'.name_ne_toString hr' hanon' _)
  · rw [String.isEmpty_iff.mp hanon, String.isEmpty_iff.mp hanon']

theorem declaredItems (params : List String) :
    ∀ t ∈ params.map fun _ => "double", t ≠ "" ∧ ',' ∉ t.toList := by
  intro t ht
  obtain ⟨p, -, rfl⟩ := List.mem_map.mp ht
  decide

theorem definedItems {params : List String} (h : ∀ p ∈ params, isWord p.toList = true) :
    ∀ t ∈ params.map fun p => "double " ++ localName p, t ≠ "" ∧ ',' ∉ t.toList := by
  intro t ht
  obtain ⟨p, hp, rfl⟩ := List.mem_map.mp ht
  have hchars : ("double " ++ localName p).toList = "double ".toList ++ (localName p).toList :=
    String.toList_append ..
  refine ⟨fun hempty => by simp [hempty] at hchars, ?_⟩
  rw [hchars, List.mem_append]
  rintro (hmem | hmem)
  · exact absurd hmem (by decide)
  · exact absurd (atomic_localName (h p hp) _ hmem) (by decide)

/-- What is told from the lines of a routine at once. -/
theorem CodeModule.routineLines_cases (hm : m.Proper) (hm' : m'.Proper) (hr : m.get? id = some r)
    (hr' : m'.get? id' = some r') (h : m.routineLines id r = m'.routineLines id' r') :
    m.globalName id = m'.globalName id' ∧
      (r.body = none ∧ r'.body = none ∧ r.params.length = r'.params.length ∨
        ∃ body body', r.body = some body ∧ r'.body = some body' ∧ r.params = r'.params ∧
          body.instructions.toList.map (body.instructionLine m r.params) =
            body'.instructions.toList.map (body'.instructionLine m' r'.params) ∧
          body.returnLine r.params = body'.returnLine r'.params) := by
  have hname := hm.named.atomic_globalName hr
  have hname' := hm'.named.atomic_globalName hr'
  unfold routineLines at h
  cases hbody : r.body with
  | none =>
    cases hbody' : r'.body with
    | none =>
      rw [hbody, hbody'] at h
      obtain ⟨hglobal, hitems⟩ := signature_eq hname hname' (declaredItems r.params)
        (declaredItems r'.params) (List.cons.inj h).1
      refine ⟨hglobal, .inl ⟨rfl, rfl, ?_⟩⟩
      simpa using congrArg List.length hitems
    | some body' =>
      rw [hbody, hbody'] at h
      simp at h
  | some body =>
    cases hbody' : r'.body with
    | none =>
      rw [hbody, hbody'] at h
      simp at h
    | some body' =>
      rw [hbody, hbody'] at h
      obtain ⟨hfirst, hrest⟩ := List.cons.inj h
      obtain ⟨v, hret, -⟩ := (hm.sound.body_sound hr hbody).ret
      obtain ⟨v', hret', -⟩ := (hm'.sound.body_sound hr' hbody').ret
      obtain ⟨hlines, hends⟩ := List.append_inj' (List.cons.inj hrest).2
        (by simp [Body.returnLine, hret, hret'])
      have hwords := fun p hp => hm.words id r body hr hbody p (List.mem_append_left _ hp)
      have hwords' := fun p hp => hm'.words id' r' body' hr' hbody' p (List.mem_append_left _ hp)
      obtain ⟨hglobal, hitems⟩ := signature_eq hname hname' (definedItems hwords)
        (definedItems hwords') hfirst
      have hparams : r.params = r'.params :=
        eq_of_map_eq hitems fun p _ q _ hpq =>
          localName_injective ((String.append_right_inj "double ").mp hpq)
      exact ⟨hglobal, .inr ⟨body, body', rfl, rfl, hparams, hlines, List.append_cancel_right hends⟩⟩

/-- Routines are told by their lines, up to what does not show. -/
theorem CodeModule.routineLines_eq (hm : m.Proper) (hm' : m'.Proper) (hr : m.get? id = some r)
    (hr' : m'.get? id' = some r')
    (hplaces : ∀ id id' r r', m.get? id = some r → m'.get? id' = some r' →
      m.globalName id = m'.globalName id' → ρ id = ρ' id')
    (h : m.routineLines id r = m'.routineLines id' r') :
    (r.renumber ρ).shown = (r'.renumber ρ').shown := by
  obtain ⟨hglobal, hcases⟩ := routineLines_cases hm hm' hr hr' h
  have hname := name_eq_of_globalName hm.named hm'.named hr hr' hglobal
  rcases hcases with ⟨hbody, hbody', hlength⟩ |
    ⟨body, body', hbody, hbody', hparams, hlines, hret⟩
  · simp only [Routine.renumber, Routine.shown, Routine.isDeclaration, hbody, hbody',
      Option.map_none, Option.isNone_none, ↓reduceIte, hname, List.map_const', hlength]
  · have hsound := hm.sound.body_sound hr hbody
    have hsound' := hm'.sound.body_sound hr' hbody'
    have hnodup := hm.nodup id r body hr hbody
    have hwords := hm.words id r body hr hbody
    have hwords' := hm'.words id' r' body' hr' hbody'
    rw [Routine.arity, ← hparams] at hsound'
    rw [← hparams] at hlines hret hwords'
    -- the names of the results come first: operands are told by them
    have hnames : body.instructions.toList.map (·.name) = body'.instructions.toList.map (·.name) :=
      map_eq_of_map_eq hlines fun i hi i' hi' hline =>
        (Body.instructionLine_eq (hwords _ (List.mem_append_right _ (List.mem_map_of_mem hi)))
          (hwords' _ (List.mem_append_right _ (List.mem_map_of_mem hi'))) hline).1
    have hlocals : localNames r.params body.instructions =
        localNames r.params body'.instructions := by
      rw [localNames, localNames, hnames]
    have hinstructions : body.instructions.toList.map (·.renumber ρ) =
        body'.instructions.toList.map (·.renumber ρ') := by
      refine map_eq_of_map_eq hlines ?_
      intro i hi i' hi' hline
      obtain ⟨hi_name, hoperation⟩ := Body.instructionLine_eq
        (hwords _ (List.mem_append_right _ (List.mem_map_of_mem hi)))
        (hwords' _ (List.mem_append_right _ (List.mem_map_of_mem hi'))) hline
      obtain ⟨k, hk⟩ := List.mem_iff_getElem?.mp hi
      obtain ⟨k', hk'⟩ := List.mem_iff_getElem?.mp hi'
      rw [Array.getElem?_toList] at hk hk'
      rw [Instruction.renumber, Instruction.renumber, hi_name,
        Body.operation_eq (hsound.fits k i hk) (hsound'.fits k' i' hk') hm.named hm'.named hlocals
          hnodup hwords hplaces hoperation]
    obtain ⟨v, hv, husable⟩ := hsound.ret
    obtain ⟨v', hv', husable'⟩ := hsound'.ret
    have htyped : body.typedText r.params v = body'.typedText r.params v' := by
      simpa [Body.returnLine, hv, hv'] using hret
    have hvalue := Body.operand_eq husable husable' hlocals hnodup
      (Body.operandText_of_typedText htyped)
    have hcode : body.renumber ρ = body'.renumber ρ' := by
      rw [Body.renumber, Body.renumber, hv, hv', hvalue]
      congr 1
      apply Array.ext'
      rw [Array.toList_map, Array.toList_map, hinstructions]
    simp only [Routine.renumber, hbody, hbody', Option.map_some, hname, hparams, hcode]

end Routines

/-! ## Lines -/

/-- The text stands on one line. -/
def Inline (text : String) : Prop := '\n' ∉ text.toList

instance (text : String) : Decidable (Inline text) :=
  inferInstanceAs (Decidable (¬ '\n' ∈ text.toList))

theorem inline_append {text text' : String} :
    Inline (text ++ text') ↔ Inline text ∧ Inline text' := by
  unfold Inline
  rw [String.toList_append, List.mem_append, not_or]

theorem inline_of_atomic {text : String} (h : Atomic text.toList) : Inline text :=
  fun hmem => absurd (h _ hmem) (by decide)

theorem inline_commaSeparated {texts : List String} (h : ∀ t ∈ texts, Inline t) :
    Inline (commaSeparated texts) := by
  cases texts with
  | nil => decide
  | cons text texts =>
    intro hmem
    have hwhole : '\n' ∈ ',' :: ' ' :: (commaSeparated (text :: texts)).toList :=
      List.mem_cons_of_mem _ (List.mem_cons_of_mem _ hmem)
    rw [toList_commaSeparated, List.flatMap_map] at hwhole
    obtain ⟨t, ht, hbreak⟩ := List.mem_flatMap.mp hwhole
    exact h t ht (by simpa using hbreak)

section Lines

variable {m m' : CodeModule} {id id' : RoutineId} {r r' : Routine}

theorem Body.inline_typedText {body : Body} {params : List String}
    (hwords : ∀ name ∈ localNames params body.instructions, isWord name.toList = true)
    (v : Value) : Inline (body.typedText params v) := by
  rw [Body.typedText, inline_append, inline_append]
  exact ⟨⟨inline_of_atomic (ValueType.atomic_text _), by decide⟩,
    inline_of_atomic (body.atomic_operandText hwords v)⟩

theorem Body.inline_operationText {body : Body} {params : List String} {code : Array Instruction}
    {arity position : Nat} {operation : Operation} (hm : m.WellNamed)
    (hop : Fits m code arity position operation)
    (hwords : ∀ name ∈ localNames params body.instructions, isWord name.toList = true) :
    Inline (body.operationText m params operation) := by
  have hoperand := fun v => inline_of_atomic (body.atomic_operandText hwords v)
  cases hop with
  | binary op hl hr =>
    simp only [Body.operationText, inline_append, hoperand, and_true]
    exact ⟨⟨by cases op <;> decide, by decide⟩, by decide⟩
  | ofTruth hv =>
    simp only [Body.operationText, inline_append, body.inline_typedText hwords, and_true]
    exact ⟨by decide, by decide⟩
  | @call callee args hcallee hargs =>
    obtain ⟨target, htarget, -⟩ := Option.map_eq_some_iff.mp hcallee
    have hname := inline_of_atomic (hm.atomic_globalName htarget)
    have hlist : Inline (commaSeparated (args.map (body.typedText params))) := by
      apply inline_commaSeparated
      intro t ht
      obtain ⟨v, -, rfl⟩ := List.mem_map.mp ht
      exact body.inline_typedText hwords v
    simp only [Body.operationText, inline_append, hname, hlist, and_true]
    exact ⟨⟨by decide, by decide⟩, by decide⟩

theorem CodeModule.routineLines_line (hm : m.Proper) (hr : m.get? id = some r) {line : String}
    (hline : line ∈ m.routineLines id r) : Inline line ∧ line ≠ "" := by
  have hname := inline_of_atomic (hm.named.atomic_globalName hr)
  unfold routineLines at hline
  cases hbody : r.body with
  | none =>
    rw [hbody, List.mem_singleton] at hline
    have hlist : Inline (commaSeparated (r.params.map fun _ => "double")) := by
      apply inline_commaSeparated
      intro t ht
      obtain ⟨p, -, rfl⟩ := List.mem_map.mp ht
      decide
    rw [hline]
    refine ⟨?_, by simp⟩
    simp only [inline_append, hname, hlist, and_true]
    exact ⟨⟨by decide, by decide⟩, by decide⟩
  | some body =>
    have hwords := hm.words id r body hr hbody
    have hsound := hm.sound.body_sound hr hbody
    rw [hbody] at hline
    simp only [List.mem_cons, List.mem_append, List.not_mem_nil, or_false, List.mem_map] at hline
    rcases hline with rfl | rfl | ⟨i, hi, rfl⟩ | hreturn | rfl
    · have hlist : Inline (commaSeparated (r.params.map fun p => "double " ++ localName p)) := by
        apply inline_commaSeparated
        intro t ht
        obtain ⟨p, hp, rfl⟩ := List.mem_map.mp ht
        rw [inline_append]
        exact ⟨by decide, inline_of_atomic
          (atomic_localName (hwords p (List.mem_append_left _ hp)))⟩
      refine ⟨?_, by simp⟩
      simp only [inline_append, hname, hlist, and_true]
      exact ⟨⟨by decide, by decide⟩, by decide⟩
    · decide
    · obtain ⟨k, hk⟩ := List.mem_iff_getElem?.mp hi
      rw [Array.getElem?_toList] at hk
      have hoperation := body.inline_operationText hm.named (hsound.fits k i hk) hwords
      have hlocal := inline_of_atomic (atomic_localName
        (hwords i.name (List.mem_append_right _ (List.mem_map_of_mem hi))))
      refine ⟨?_, by simp [Body.instructionLine]⟩
      simp only [Body.instructionLine, inline_append, hlocal, hoperation, and_true]
      exact ⟨by decide, by decide⟩
    · obtain ⟨v, -, rfl⟩ := List.mem_map.mp hreturn
      refine ⟨?_, by simp⟩
      rw [inline_append]
      exact ⟨by decide, body.inline_typedText hwords v⟩
    · decide

/-! ## Modules -/

/-- The number of an element in a list is that of its image, if no other element has the image. -/
theorem idxOf_map {α β : Type} [DecidableEq α] [DecidableEq β] {f : α → β} {l : List α} {a : α}
    (h : ∀ b ∈ l, f b = f a → b = a) : (l.map f).idxOf (f a) = l.idxOf a := by
  induction l with
  | nil => rfl
  | cons b l ih =>
    rw [List.map_cons, List.idxOf_cons, List.idxOf_cons,
      ih fun c hc => h c (List.mem_cons_of_mem b hc)]
    by_cases hb : b = a
    · simp [hb]
    · have hne : f b ≠ f a := fun heq => hb (h b (by simp) heq)
      rw [beq_false_of_ne hb, beq_false_of_ne hne]

/-- The place of a routine among the live ones is told from what it is referred to. -/
theorem CodeModule.position_eq (hm : m.Proper) (hr : m.get? id = some r) :
    m.position id = ⟨(m.live.map fun p => m.globalName p.1).idxOf (m.globalName id)⟩ := by
  have hidx := @idxOf_map _ _ _ _ m.globalName (m.live.map (·.1)) id
  rw [List.map_map] at hidx
  rw [position, ← hidx]
  · rfl
  · intro other hother heq
    obtain ⟨p, hp, rfl⟩ := List.mem_map.mp hother
    exact globalName_injective hm.sound hm.named ((mem_live_iff m p.1 p.2).mp hp) hr heq

/-- Modules of one name with the same text show the same routines. -/
theorem CodeModule.shown_eq_of_text (hm : m.Proper) (hm' : m'.Proper) (hname : m.name = m'.name)
    (htext : m.text = m'.text) : m.shown = m'.shown := by
  have hget : ∀ {m : CodeModule} {p}, p ∈ m.live → m.get? p.1 = some p.2 := fun {m} {p} hp =>
    (mem_live_iff m p.1 p.2).mp hp
  -- the lines of all routines, parted by empty lines
  have hflat : ∀ m : CodeModule, (m.live.flatMap fun p => "" :: m.routineLines p.1 p.2) =
      (m.live.map fun p => m.routineLines p.1 p.2).flatMap ("" :: ·) := by
    intro m
    rw [List.flatMap_map]
  have hinline : ∀ {m : CodeModule}, m.Proper →
      ∀ line ∈ m.live.flatMap fun p => "" :: m.routineLines p.1 p.2, Inline line := by
    intro m hm line hline
    obtain ⟨p, hp, hmem⟩ := List.mem_flatMap.mp hline
    rcases List.mem_cons.mp hmem with rfl | hmem
    · decide
    · exact (routineLines_line hm (hget hp) hmem).1
  have hmark : ∀ {m : CodeModule}, m.Proper →
      ∀ lines ∈ m.live.map fun p => m.routineLines p.1 p.2, "" ∉ lines := by
    intro m hm lines hlines hempty
    obtain ⟨p, hp, rfl⟩ := List.mem_map.mp hlines
    exact (routineLines_line hm (hget hp) hempty).2 rfl
  have hlines : (m.live.map fun p => m.routineLines p.1 p.2) =
      m'.live.map fun p => m'.routineLines p.1 p.2 := by
    rw [text_eq_unlines, text_eq_unlines, header, header, hname, String.append_right_inj] at htext
    have heq := unlines_injective (hinline hm) (hinline hm') htext
    rw [hflat, hflat] at heq
    exact flatMap_cons_injective (hmark hm) (hmark hm') heq
  have hglobals : (m.live.map fun p => m.globalName p.1) =
      m'.live.map fun p => m'.globalName p.1 :=
    map_eq_of_map_eq hlines fun p hp q hq h => (routineLines_cases hm hm' (hget hp) (hget hq) h).1
  have hplaces : ∀ id id' r r', m.get? id = some r → m'.get? id' = some r' →
      m.globalName id = m'.globalName id' → m.position id = m'.position id' := by
    intro id id' r r' hr hr' h
    rw [position_eq hm hr, position_eq hm' hr', h, hglobals]
  exact map_eq_of_map_eq hlines fun p hp q hq h =>
    routineLines_eq hm hm' (hget hp) (hget hq) hplaces h

end Lines

/-- Two modules of one name that sessions over any texts have reached, and whose texts are equal,
    have the same live routines in the same order: the same names, both declared or both defined,
    with the same parameters if defined and as many if declared, and with bodies that are equal when
    called routines are numbered in the order of the live ones. -/
theorem text_determines_routines {config config' : Config} {text text' : String} {s s' : Session}
    (hs : Session.Later config.precedence (.start config text.toList) s)
    (hs' : Session.Later config'.precedence (.start config' text'.toList) s')
    (hname : s.code.name = s'.code.name) (htext : s.code.text = s'.code.text) :
    s.code.shown = s'.code.shown :=
  shown_eq_of_text (Session.proper_of_start hs) (Session.proper_of_start hs') hname htext

/-- The two texts differ in the name of a declared parameter, and a fault in the second one leaves
    an empty slot. The modules differ, but their texts are the same, and so is what they show. -/
theorem text_determines_routines_beside_fault :
    let run := fun text : String =>
      ((Session.start .standard text.toList).observe .standard fun event _ => event).2.code
    run "extern f(a) 2 - 1" ≠ run "extern f(b) x 2 - 1" ∧
      (run "extern f(a) 2 - 1").text = (run "extern f(b) x 2 - 1").text ∧
      (run "extern f(a) 2 - 1").shown = (run "extern f(b) x 2 - 1").shown := by
  intro run
  have htext : (run "extern f(a) 2 - 1").text = (run "extern f(b) x 2 - 1").text := by
    decide +kernel
  refine ⟨by decide +kernel, htext, ?_⟩
  have hlater : ∀ text : String, Session.Later Config.standard.precedence
      (.start .standard text.toList) ((Session.start .standard text.toList).observe .standard
        fun event _ => event).2 := fun text => Session.later_observe _ _
  exact text_determines_routines (hlater "extern f(a) 2 - 1") (hlater "extern f(b) x 2 - 1")
    (by decide +kernel) htext

end Formulary
