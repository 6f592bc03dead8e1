import AlfredProcessing.Extract.Cleaning
import AlfredProcessing.Lib.Regex

namespace AlfredProcessing.Tools.CodeValidation

open Lib.Regex Extract.Cleaning

section Tree

/-- A syntax tree. Of the nodes that no check looks at only the children are kept. -/
inductive Node where
  | importNames (names : List (List Char)) (line : Nat)
  | importFrom (module : Option (List Char)) (line : Nat)
  | call (func : Node) (args : List Node) (line : Nat)
  | name (id : List Char)
  | attr (value : Node) (name : List Char)
  | other (children : List Node)

/-- `ast.iter_child_nodes`. -/
def Node.children : Node → List Node
  | .importNames .. => []
  | .importFrom .. => []
  | .call func args _ => func :: args
  | .name _ => []
  | .attr value _ => [value]
  | .other children => children

mutual

def Node.size : Node → Nat
  | .importNames .. => 1
  | .importFrom .. => 1
  | .call func args _ => 1 + (func.size + sizes args)
  | .name _ => 1
  | .attr value _ => 1 + value.size
  | .other children => 1 + sizes children

def sizes : List Node → Nat
  | [] => 0
  | n :: ns => n.size + sizes ns

end

/-- The queue of `ast.walk`, with fuel for every node. -/
def walkFrom : Nat → List Node → List Node
  | 0, _ => []
  | _ + 1, [] => []
  | fuel + 1, n :: queue => n :: walkFrom fuel (queue ++ n.children)

/-- `ast.walk`. -/
def walk (tree : Node) : List Node := walkFrom tree.size [tree]

inductive Within (n : Node) : Node → Prop where
  | root : Within n n
  | child {t c : Node} (hc : c ∈ t.children) (h : Within n c) : Within n t

theorem sizes_append (ns ms : List Node) : sizes (ns ++ ms) = sizes ns + sizes ms := by
  induction ns with
  | nil => simp [sizes]
  | cons n ns ih =>
    rw [List.cons_append, sizes, sizes, ih]
    omega

theorem size_eq (t : Node) : t.size = 1 + sizes t.children := by
  cases t <;> simp [Node.size, Node.children, sizes]

theorem walkFrom_sound {fuel : Nat} {queue : List Node} {n : Node} (h : n ∈ walkFrom fuel queue) :
    ∃ t ∈ queue, Within n t := by
  induction fuel generalizing queue with
  | zero => cases h
  | succ fuel ih =>
    cases queue with
    | nil => cases h
    | cons t queue =>
      obtain rfl | h := List.mem_cons.mp h
      · exact ⟨n, List.mem_cons_self, .root⟩
      · obtain ⟨c, hc, hn⟩ := ih h
        obtain hc | hc := List.mem_append.mp hc
        · exact ⟨c, List.mem_cons_of_mem t hc, hn⟩
        · exact ⟨t, List.mem_cons_self, .child hc hn⟩

theorem walkFrom_complete {fuel : Nat} {queue : List Node} {n t : Node} (hfuel : sizes queue ≤ fuel)
    (ht : t ∈ queue) (h : Within n t) : n ∈ walkFrom fuel queue := by
  induction fuel generalizing queue t with
  | zero =>
    cases queue with
    | nil => cases ht
    | cons m queue =>
      rw [sizes, size_eq] at hfuel
      omega
  | succ fuel ih =>
    cases queue with
    | nil => cases ht
    | cons m queue =>
      have hrest : sizes (queue ++ m.children) ≤ fuel := by
        rw [sizes, size_eq] at hfuel
        rw [sizes_append]
        omega
      obtain rfl | ht := List.mem_cons.mp ht
      · cases h with
        | root => exact List.mem_cons_self
        | child hc h => exact List.mem_cons_of_mem _ (ih hrest (List.mem_append_right queue hc) h)
      · exact List.mem_cons_of_mem _ (ih hrest (List.mem_append_left _ ht) h)

theorem mem_walk {n tree : Node} : n ∈ walk tree ↔ Within n tree := by
  constructor
  · intro h
    obtain ⟨t, ht, hn⟩ := walkFrom_sound h
    cases List.mem_singleton.mp ht
    exact hn
  · intro h
    exact walkFrom_complete (by simp [sizes]) (List.mem_singleton_self tree) h

end Tree

section Model

def forbiddenImports : List (List Char) :=
  ["os".toList, "sys".toList, "subprocess".toList, "shutil".toList, "importlib".toList, "socket".toList,
    "http".toList, "urllib".toList]

def forbiddenFunctions : List (List Char) :=
  ["eval".toList, "exec".toList, "compile".toList, "__import__".toList, "getattr".toList, "setattr".toList,
    "delattr".toList, "globals".toList, "locals".toList]

def spaces : Expr := .many (.char isSpace)

/-- `FORBIDDEN_PATTERNS`. -/
def forbiddenPatterns : List (Expr × String) :=
  [(.seqs [.text "frappe.db.sql".toList, spaces, .char (· = '(')],
      "frappe.db.sql() (raw SQL) - use Frappe ORM instead"),
    (.seqs [.look fun prev _ => prev ≠ some '.', .text "open".toList, spaces, .char (· = '(')],
      "open() (file operations) - not allowed in Server Scripts"),
    (.text "requests.".toList, "requests library - external HTTP calls not allowed in sandbox")]

def dataAccess : Expr :=
  .seq (.text "frappe.".toList) (.oneOf [.text "get_all".toList, .text "get_doc".toList, .text "get_list".toList,
    .text "db.get_value".toList, .text "db.get_all".toList])

def permissionCheck : Expr :=
  .seq (.text "frappe.".toList) (.oneOf [.text "has_permission".toList, .text "only_for".toList])

def quoteMark : Expr := .char fun c => c = '"' || c = '\''

def emailPattern : Expr :=
  .seqs [quoteMark, .plus (.char fun c => c.isAlphanum || "._%+-".toList.contains c), .char (· = '@'),
    .plus (.char fun c => c.isAlphanum || ".-".toList.contains c), .char (· = '.'), .char Char.isAlpha,
    .plus (.char Char.isAlpha), quoteMark]

structure Flaw where
  type : String
  message : List Char
  line : Option Nat

/-- `ast.parse` fails with a syntax error, or with an exception that is not caught. -/
inductive ParseError where
  | syntaxError (message : List Char) (line : Option Nat)
  | raised

def moduleRoot (name : List Char) : List Char := name.takeWhile (· ≠ '.')

def importFlaws : Node → List Flaw
  | .importNames names line =>
    (names.filter fun n => forbiddenImports.contains (moduleRoot n)).map fun n =>
      ⟨"forbidden_import", "Forbidden import: '".toList ++ n ++ "' - not allowed in Server Script sandbox".toList,
        some line⟩
  | .importFrom (some m) line =>
    if !m.isEmpty && forbiddenImports.contains (moduleRoot m) then
      [⟨"forbidden_import",
        "Forbidden import: 'from ".toList ++ m ++ "' - not allowed in Server Script sandbox".toList, some line⟩]
    else []
  | _ => []

def funcName : Node → List Char
  | .name id => id
  | .attr _ name => name
  | _ => []

def callFlaws : Node → List Flaw
  | .call func _ line =>
    if forbiddenFunctions.contains (funcName func) then
      [⟨"forbidden_function",
        "Forbidden function: '".toList ++ funcName func ++ "()' - not allowed in Server Script sandbox".toList,
        some line⟩]
    else []
  | _ => []

/-- `code.split("\n")`. -/
def lines : List Char → List (List Char)
  | [] => [[]]
  | c :: cs =>
    if c = '\n' then [] :: lines cs
    else
      match lines cs with
      | [] => [[c]]
      | l :: ls => (c :: l) :: ls

def numbered (code : List Char) : List (List Char × Nat) := (lines code).zipIdx 1

def patternFlaws (code : List Char) : List Flaw :=
  forbiddenPatterns.flatMap fun p =>
    ((numbered code).filter fun l => found p.1 l.1).map fun l =>
      ⟨"forbidden_pattern", "Forbidden: ".toList ++ p.2.toList, some l.2⟩

/-- Data is read, and no permission is asked for. -/
def unchecked (code : List Char) : Bool := found dataAccess code && !found permissionCheck code

def permissionFlaws (code : List Char) : List Flaw :=
  if unchecked code then
    [⟨"missing_permission_check",
      ("Server Script accesses data (frappe.get_all/get_doc) without a permission check " ++
        "(frappe.has_permission). Consider adding permission verification.").toList, none⟩]
  else []

def hardcoded (line : List Char) : Bool := found (.text "sendmail".toList) line && found emailPattern line

def emailFlaws (code : List Char) : List Flaw :=
  if found (.text "frappe.sendmail".toList) code then
    ((numbered code).filter fun l => hardcoded l.1).map fun l =>
      ⟨"hardcoded_email", "Hardcoded email address in sendmail - use document context for recipients".toList,
        some l.2⟩
  else []

variable (parse : List Char → Except ParseError Node)

/-- The errors of `validate_python_syntax`. -/
def validatePythonSyntax (code : List Char) : Option (List Flaw) :=
  match parse code with
  | .error (.syntaxError message line) => some [⟨"syntax_error", message, line⟩]
  | .error .raised => none
  | .ok tree =>
    some ((walk tree).flatMap importFlaws ++ (walk tree).flatMap callFlaws ++ patternFlaws code ++
      permissionFlaws code ++ emailFlaws code)

def valid (code : List Char) : Bool := (validatePythonSyntax parse code).any List.isEmpty

end Model

section Soundness

def forbiddenImport : Node → Bool
  | .importNames names _ => names.any fun n => forbiddenImports.contains (moduleRoot n)
  | .importFrom (some m) _ => forbiddenImports.contains (moduleRoot m)
  | _ => false

/-- A call of a name that may not be called, or of an attribute of that name. -/
def forbiddenCall : Node → Bool
  | .call (.name id) _ _ => forbiddenFunctions.contains id
  | .call (.attr _ name) _ _ => forbiddenFunctions.contains name
  | _ => false

def sqlCall : Node → Bool
  | .call (.attr (.attr (.name m) db) sql) _ _ =>
    m = "frappe".toList && db = "db".toList && sql = "sql".toList
  | _ => false

def openCall : Node → Bool
  | .call (.name id) _ _ => id = "open".toList
  | _ => false

structure Clean (tree : Node) : Prop where
  imports : ∀ n, Within n tree → forbiddenImport n = false
  calls : ∀ n, Within n tree → forbiddenCall n = false
  sql : ∀ n, Within n tree → sqlCall n = false
  opens : ∀ n, Within n tree → openCall n = false

variable (parse : List Char → Except ParseError Node)

def Sound (code : List Char) : Prop := valid parse code = true → ∃ tree, parse code = .ok tree ∧ Clean tree

def matchedLine (code : List Char) : Bool := (lines code).any fun l => forbiddenPatterns.any fun p => found p.1 l

def RefusedElse (code : List Char) (tree : Node) : Prop :=
  (∃ n, Within n tree ∧ (forbiddenImport n = true ∨ forbiddenCall n = true)) ∨ unchecked code = true ∨
    (found (.text "frappe.sendmail".toList) code = true ∧ ∃ l ∈ lines code, hardcoded l = true)

/-- Where the tree has a call of `frappe.db.sql` or `open`, one of the patterns finds something on a line,
or else the text is refused on other grounds. -/
def OnOneLine (code : List Char) : Prop :=
  ∀ tree, parse code = .ok tree → (∃ n, Within n tree ∧ (sqlCall n = true ∨ openCall n = true)) →
    matchedLine code = true ∨ RefusedElse code tree

variable {parse} {code : List Char} {tree : Node} {n : Node}

theorem importFlaws_eq_nil : importFlaws n = [] ↔ forbiddenImport n = false := by
  have hempty : forbiddenImports.contains (moduleRoot []) = false := by decide
  cases n with
  | importNames names line =>
    rw [importFlaws, forbiddenImport, List.map_eq_nil_iff, List.filter_eq_nil_iff, List.any_eq_false]
  | importFrom module line =>
    cases module with
    | none => exact iff_of_true rfl rfl
    | some m =>
      rw [importFlaws, forbiddenImport]
      cases hm : forbiddenImports.contains (moduleRoot m) with
      | false => simp
      | true =>
        cases m with
        | nil =>
          rw [hempty] at hm
          cases hm
        | cons c m => simp
  | _ => exact iff_of_true rfl rfl

theorem callFlaws_eq_nil : callFlaws n = [] ↔ forbiddenCall n = false := by
  have hempty : forbiddenFunctions.contains [] = false := by decide
  have hname : ∀ name message line, (if forbiddenFunctions.contains name = true then [(⟨"forbidden_function", message, line⟩ : Flaw)]
      else []) = [] ↔ forbiddenFunctions.contains name = false := by
    intro name message line
    cases forbiddenFunctions.contains name <;> simp
  cases n with
  | call func args line =>
    rw [callFlaws, hname]
    cases func with
    | name id => exact Iff.rfl
    | attr value name => exact Iff.rfl
    | _ => exact iff_of_true hempty rfl
  | _ => exact iff_of_true rfl rfl

theorem numbered_filter {p : List Char → Bool} :
    (numbered code).filter (fun l => p l.1) = [] ↔ ∀ l ∈ lines code, p l = false := by
  rw [List.filter_eq_nil_iff]
  constructor
  · intro h l hl
    obtain ⟨i, hi, rfl⟩ := List.mem_iff_getElem.mp hl
    have hmem : ((lines code)[i], 1 + i) ∈ numbered code := by
      rw [numbered, List.mk_add_mem_zipIdx_iff_getElem?]
      exact List.getElem?_eq_getElem hi
    simpa using h _ hmem
  · intro h l hl
    simpa using h l.1 (List.fst_mem_of_mem_zipIdx hl)

theorem patternFlaws_eq_nil : patternFlaws code = [] ↔ matchedLine code = false := by
  rw [patternFlaws, List.flatMap_eq_nil_iff, matchedLine, List.any_eq_false]
  simp only [List.map_eq_nil_iff, numbered_filter, List.any_eq_true, not_exists, not_and, Bool.not_eq_true]
  exact ⟨fun h l hl p hp => h p hp l hl, fun h p hp l hl => h l hl p hp⟩

theorem permissionFlaws_eq_nil : permissionFlaws code = [] ↔ unchecked code = false := by
  rw [permissionFlaws]
  cases unchecked code with
  | false => exact iff_of_true rfl rfl
  | true => exact iff_of_false (List.cons_ne_nil _ _) Bool.noConfusion

theorem emailFlaws_eq_nil : emailFlaws code = [] ↔
    (found (.text "frappe.sendmail".toList) code = true → ∀ l ∈ lines code, hardcoded l = false) := by
  rw [emailFlaws]
  cases found (.text "frappe.sendmail".toList) code with
  | false => simp
  | true => simp only [if_true, List.map_eq_nil_iff, numbered_filter, forall_const]

/-- A text is accepted just when no check refuses it. -/
theorem valid_iff : valid parse code = true ↔ ∃ tree, parse code = .ok tree ∧ matchedLine code = false ∧
    ¬RefusedElse code tree := by
  rw [valid, validatePythonSyntax]
  cases parse code with
  | error e => cases e <;> simp
  | ok tree =>
    rw [Option.any_some, List.isEmpty_iff]
    simp only [List.append_eq_nil_iff, List.flatMap_eq_nil_iff, mem_walk, importFlaws_eq_nil, callFlaws_eq_nil,
      patternFlaws_eq_nil, permissionFlaws_eq_nil, emailFlaws_eq_nil]
    constructor
    · rintro ⟨⟨⟨⟨himports, hcalls⟩, hpatterns⟩, hpermission⟩, hemail⟩
      refine ⟨tree, rfl, hpatterns, ?_⟩
      rintro (⟨n, hn, himport | hcall⟩ | hunchecked | ⟨hsend, l, hl, hhard⟩)
      · rw [himports n hn] at himport
        cases himport
      · rw [hcalls n hn] at hcall
        cases hcall
      · rw [hpermission] at hunchecked
        cases hunchecked
      · rw [hemail hsend l hl] at hhard
        cases hhard
    · rintro ⟨_, htree, hpatterns, hrefused⟩
      cases htree
      refine ⟨⟨⟨⟨fun n hn => ?_, fun n hn => ?_⟩, hpatterns⟩, ?_⟩, fun hsend l hl => ?_⟩
      · exact Bool.eq_false_iff.mpr fun h => hrefused (.inl ⟨n, hn, .inl h⟩)
      · exact Bool.eq_false_iff.mpr fun h => hrefused (.inl ⟨n, hn, .inr h⟩)
      · exact Bool.eq_false_iff.mpr fun h => hrefused (.inr (.inl h))
      · exact Bool.eq_false_iff.mpr fun h => hrefused (.inr (.inr ⟨hsend, l, hl, h⟩))

theorem clean_iff (hvalid : ¬RefusedElse code tree) : Clean tree ↔
    ¬∃ n, Within n tree ∧ (sqlCall n = true ∨ openCall n = true) := by
  constructor
  · rintro h ⟨n, hn, hsql | hopen⟩
    · rw [h.sql n hn] at hsql
      cases hsql
    · rw [h.opens n hn] at hopen
      cases hopen
  · intro h
    refine ⟨fun n hn => ?_, fun n hn => ?_, fun n hn => ?_, fun n hn => ?_⟩
    · exact Bool.eq_false_iff.mpr fun himport => hvalid (.inl ⟨n, hn, .inl himport⟩)
    · exact Bool.eq_false_iff.mpr fun hcall => hvalid (.inl ⟨n, hn, .inr hcall⟩)
    · exact Bool.eq_false_iff.mpr fun hsql => h ⟨n, hn, .inl hsql⟩
    · exact Bool.eq_false_iff.mpr fun hopen => h ⟨n, hn, .inr hopen⟩

/-- What is accepted has a clean tree just where a pattern finds the calls that only the patterns look for. -/
theorem validation_sound_iff (parse : List Char → Except ParseError Node) (code : List Char) :
    Sound parse code ↔ OnOneLine parse code := by
  constructor
  · intro hsound tree htree hcall
    by_contra hrefused
    push Not at hrefused
    have hvalid : valid parse code = true :=
      valid_iff.mpr ⟨tree, htree, Bool.eq_false_iff.mpr hrefused.1, hrefused.2⟩
    obtain ⟨tree', htree', hclean⟩ := hsound hvalid
    rw [htree] at htree'
    cases htree'
    exact (clean_iff hrefused.2).mp hclean hcall
  · intro honeLine hvalid
    obtain ⟨tree, htree, hpatterns, hrefused⟩ := valid_iff.mp hvalid
    refine ⟨tree, htree, (clean_iff hrefused).mpr fun hcall => ?_⟩
    obtain hmatched | hother := honeLine tree htree hcall
    · rw [hpatterns] at hmatched
      cases hmatched
    · exact hrefused hother

def parenthesised : List Char := "(open)('notes.txt')".toList

def readsParenthesised (code : List Char) : Except ParseError Node :=
  if code = parenthesised then .ok (.other [.other [.call (.name "open".toList) [.other []] 1]]) else .error .raised

/-- A name in parentheses is called past the patterns. -/
theorem parenthesised_accepted : ¬Sound readsParenthesised parenthesised := by
  intro h
  have hvalid : valid readsParenthesised parenthesised = true := by decide
  obtain ⟨tree, htree, hclean⟩ := h hvalid
  have hread : readsParenthesised parenthesised =
      .ok (.other [.other [.call (.name "open".toList) [.other []] 1]]) := if_pos rfl
  rw [hread] at htree
  cases htree
  have hwithin : Within (.call (.name "open".toList) [.other []] 1)
      (.other [.other [.call (.name "open".toList) [.other []] 1]]) :=
    .child List.mem_cons_self (.child List.mem_cons_self .root)
  exact absurd (hclean.opens _ hwithin) (by decide)

end Soundness

end AlfredProcessing.Tools.CodeValidation
