import XmlTemplate.Proofs.Render.Oblivious

/-!
# Answers of an engine that remembers nothing

An engine is used again and again: it renders templates and evaluates expressions, while its files
change and functions and feeds are registered. What it remembers goes from one use to the next. All
its answers are those of the same uses without anything remembered.
-/

namespace XmlTemplate

/-- A use of an engine. Each use may find other functions and feeds registered. -/
inductive Engine.Request where
  | render (e : Engine) (template : Template) (data : Value) (language : Option String)
  | renderFile (e : Engine) (path : String) (data : Value) (language : Option String)
  | evaluate (e : Engine) (source : String) (data : Value)
  | clear
  /-- The files become others. -/
  | change (files : Files)

inductive Answer where
  | rendered (result : Except Stop Rendered)
  | value (result : Except Stop Value)
  | done

namespace Answer

/-- The answer to a render, and the memory after it. -/
def ofPage : Render.Outcome String → Answer × Memory
  | (.ok (output, s), m) => (.rendered (.ok ⟨output, s.warnings⟩), m)
  | (.error stop, m) => (.rendered (.error stop), m)

/-- The answer to an evaluation, and the memory after it. -/
def ofValue : Render.Outcome Value → Answer × Memory
  | (.ok (v, _), m) => (.value (.ok v), m)
  | (.error stop, m) => (.value (.error stop), m)

end Answer

/-- What a step comes to if no feed was used before. -/
def Afresh.outcome {α : Type} (x : Afresh α) (s : Session) (m : Memory) : Render.Outcome α :=
  match x [] s m with
  | (.ok ((a, _), s), m) => (.ok (a, s), m)
  | (.error stop, m) => (.error stop, m)

namespace Engine.Request

-- ---------------------------------------------------------------------------
-- Answers
-- ---------------------------------------------------------------------------

/-- The answer of the engine, and what it remembers afterwards. -/
def answer : Request → Memory → Answer × Memory
  | render e template data language, m => (e.render template data language m).map .rendered id
  | renderFile e path data language, m => (e.renderFile path data language m).map .rendered id
  | evaluate e source data, m => (e.evaluate source data m).map .value id
  | clear, m => (.done, m.clear)
  | change files, m => (.done, { m with files := files })

/-- The answers to one use after the other. -/
def answers : List Request → Memory → List Answer
  | [], _ => []
  | request :: requests, m =>
    let (answer, m) := request.answer m
    answer :: answers requests m

/-- An answer, and the memory after it, if everything is looked up anew. -/
inductive Answered : Request → Memory → Answer × Memory → Prop
  | render {e : Engine} {template : Template} {data : Value} {language : Option String}
      {m : Memory} {plain : Afresh String}
      (h : Render.Anew e (Render.page e Engine.depthLimit template) plain) :
      Answered (render e template data language) m
        (Answer.ofPage (plain.outcome (Session.start data (language.or e.language)) m))
  | renderFile {e : Engine} {path : String} {data : Value} {language : Option String}
      {m n : Memory} {compiled : Compiled} {plain : Afresh String}
      (hload : e.load path m = (.ok compiled, n))
      (h : Render.Anew e (Render.page e Engine.depthLimit compiled.template) plain) :
      Answered (renderFile e path data language) m
        (Answer.ofPage (plain.outcome (Session.start data (language.or e.language)) n))
  | missing {e : Engine} {path : String} {data : Value} {language : Option String}
      {m n : Memory} {fault : Fault} (hload : e.load path m = (.error fault, n)) :
      Answered (renderFile e path data language) m (.rendered (.error (.fault fault)), n)
  | evaluate {e : Engine} {source : String} {data : Value} {m : Memory} {expr : Expr}
      {plain : Afresh Value} (hparse : Expr.parse source = .ok expr)
      (h : Render.Anew e (Render.evaluate e ⟨0, 1⟩ expr) plain) :
      Answered (evaluate e source data) m
        (Answer.ofValue (plain.outcome (Session.start data e.language) m))
  | unreadable {e : Engine} {source : String} {data : Value} {m : Memory} {problem : SyntaxError}
      (hparse : Expr.parse source = .error problem) :
      Answered (evaluate e source data) m
        (.value (.error (.fault (.syntaxError ⟨"", 0⟩ source problem))), m)
  | clear {m : Memory} : Answered clear m (.done, m.clear)
  | change {files : Files} {m : Memory} :
      Answered (change files) m (.done, { m with files := files })

/-- Answers to one use after the other, if everything is looked up anew. -/
inductive AllAnswered : List Request → Memory → List Answer → Prop
  | nil {m : Memory} : AllAnswered [] m []
  | cons {request : Request} {requests : List Request} {m n : Memory} {answer : Answer}
      {answers : List Answer} (h : request.Answered m (answer, n))
      (hs : AllAnswered requests n answers) :
      AllAnswered (request :: requests) m (answer :: answers)

end Engine.Request

-- ---------------------------------------------------------------------------
-- Both come to the same
-- ---------------------------------------------------------------------------

namespace Render

variable {e : Engine} {m : Memory}

theorem isRight_start (data : Value) (language : Option String) (hparsed : IsParsed m) :
    IsRight e [] (Session.start data language) m where
  functions _ _ hget := nomatch hget
  feeds _ := .unused
  parsed := hparsed

theorem Anew.outcome_eq {α : Type} {x : Render α} {plain : Afresh α} (h : Anew e x plain)
    (data : Value) (language : Option String) (hparsed : IsParsed m) :
    plain.outcome (Session.start data language) (m.recalling []) =
        Outcome.remembering [] [] [] (x (Session.start data language) m) ∧
      IsParsed (x (Session.start data language) m).2 := by
  have hcoincides : Coincides e [] [] [] (x (Session.start data language) m)
    (plain [] (Session.start data language) (m.recalling [])) :=
      h.coincides (isRight_start data language hparsed)
  unfold Afresh.outcome
  revert hcoincides
  generalize x (Session.start data language) m = r
  generalize plain [] (Session.start data language) (m.recalling []) = r'
  intro hcoincides
  cases hcoincides with
  | ok h => exact ⟨rfl, h.parsed⟩
  | stop h => exact ⟨rfl, h⟩

theorem isParsed_load (path : String) (hparsed : IsParsed m) : IsParsed (e.load path m).2 := by
  have hload := congrArg Prod.snd (e.load_recalling path m m.parsed)
  change (e.load path m).2 = (e.load path m).2.recalling m.parsed at hload
  rw [hload]
  exact hparsed

end Render

/-- The result with no expressions remembered. -/
def Answer.forgetting (result : Answer × Memory) : Answer × Memory :=
  (result.1, result.2.recalling [])

theorem Answer.ofPage_remembering (r : Render.Outcome String) :
    ofPage (Render.Outcome.remembering [] [] [] r) = forgetting (ofPage r) := by
  rcases r with ⟨_ | ⟨_, _⟩, _⟩ <;> rfl

theorem Answer.ofValue_remembering (r : Render.Outcome Value) :
    ofValue (Render.Outcome.remembering [] [] [] r) = forgetting (ofValue r) := by
  rcases r with ⟨_ | ⟨_, _⟩, _⟩ <;> rfl

theorem Answer.ofPage_snd (r : Render.Outcome String) : (ofPage r).2 = r.2 := by
  rcases r with ⟨_ | ⟨_, _⟩, _⟩ <;> rfl

theorem Answer.ofValue_snd (r : Render.Outcome Value) : (ofValue r).2 = r.2 := by
  rcases r with ⟨_ | ⟨_, _⟩, _⟩ <;> rfl

namespace Engine.Request

variable {e : Engine} {m n : Memory}

theorem answer_render (e : Engine) (template : Template) (data : Value) (language : Option String)
    (m : Memory) : (render e template data language).answer m =
      Answer.ofPage (Render.page e Engine.depthLimit template
        (Session.start data (language.or e.language)) m) := by
  simp only [answer, Engine.render, Engine.renderWithin, StateT.run]
  rcases Render.page e Engine.depthLimit template _ m with ⟨_ | ⟨_, _⟩, _⟩ <;> rfl

theorem answer_renderFile {path : String} {compiled : Compiled}
    (hload : e.load path m = (.ok compiled, n)) (data : Value) (language : Option String) :
    (renderFile e path data language).answer m =
      (render e compiled.template data language).answer n := by
  simp only [answer, Engine.renderFile, hload]

theorem answer_missing {path : String} {fault : Fault}
    (hload : e.load path m = (.error fault, n)) (data : Value) (language : Option String) :
    (renderFile e path data language).answer m = (.rendered (.error (.fault fault)), n) := by
  simp only [answer, Engine.renderFile, hload]
  rfl

theorem answer_evaluate {source : String} {expr : Expr} (hparse : Expr.parse source = .ok expr)
    (data : Value) (m : Memory) : (evaluate e source data).answer m =
      Answer.ofValue (Render.evaluate e ⟨0, 1⟩ expr (Session.start data e.language) m) := by
  simp only [answer, Engine.evaluate, hparse, StateT.run]
  rcases Render.evaluate e ⟨0, 1⟩ expr _ m with ⟨_ | ⟨_, _⟩, _⟩ <;> rfl

theorem answer_unreadable {source : String} {problem : SyntaxError}
    (hparse : Expr.parse source = .error problem) (data : Value) (m : Memory) :
    (evaluate e source data).answer m =
      (.value (.error (.fault (.syntaxError ⟨"", 0⟩ source problem))), m) := by
  simp only [answer, Engine.evaluate, hparse]
  rfl

/-- Whatever is asked, there is an answer that looks everything up anew. -/
theorem exists_answered (request : Request) (m : Memory) : ∃ result, request.Answered m result := by
  cases request with
  | render e template data language =>
    obtain ⟨_, h⟩ := Render.renewable_page e Engine.depthLimit template
    exact ⟨_, .render h⟩
  | renderFile e path data language =>
    rcases hload : e.load path m with ⟨fault | compiled, n⟩
    · exact ⟨_, .missing hload⟩
    · obtain ⟨_, h⟩ := Render.renewable_page e Engine.depthLimit compiled.template
      exact ⟨_, .renderFile hload h⟩
  | evaluate e source data =>
    cases hparse : Expr.parse source with
    | error problem => exact ⟨_, .unreadable hparse⟩
    | ok expr =>
      obtain ⟨_, h⟩ := Render.renewable_local.evaluate ⟨0, 1⟩ expr
      exact ⟨_, .evaluate hparse h⟩
  | clear => exact ⟨_, .clear⟩
  | change files => exact ⟨_, .change⟩

/-- An answer that looks everything up anew is the one of the engine, and what the engine remembers
stays right. -/
theorem Answered.eq {request : Request} {result : Answer × Memory}
    (h : request.Answered (m.recalling []) result) (hparsed : Render.IsParsed m) :
    result = Answer.forgetting (request.answer m) ∧ Render.IsParsed (request.answer m).2 := by
  generalize hm : m.recalling [] = m' at h
  cases h with
  | @render e template data language _ plain h =>
    obtain ⟨houtcome, hafter⟩ := h.outcome_eq data (language.or e.language) hparsed
    rw [← hm, answer_render, houtcome, Answer.ofPage_remembering, Answer.ofPage_snd]
    exact ⟨rfl, hafter⟩
  | @renderFile e path data language _ n compiled plain hload h =>
    rw [← hm, e.load_recalling] at hload
    obtain ⟨hcompiled, rfl⟩ := Prod.ext_iff.mp hload
    have hload : e.load path m = (.ok compiled, (e.load path m).2) := Prod.ext hcompiled rfl
    obtain ⟨houtcome, hafter⟩ := h.outcome_eq data (language.or e.language)
      (Render.isParsed_load path hparsed)
    rw [answer_renderFile hload, answer_render, houtcome, Answer.ofPage_remembering,
      Answer.ofPage_snd]
    exact ⟨rfl, hafter⟩
  | @missing e path data language _ n fault hload =>
    rw [← hm, e.load_recalling] at hload
    obtain ⟨hfault, rfl⟩ := Prod.ext_iff.mp hload
    have hload : e.load path m = (.error fault, (e.load path m).2) := Prod.ext hfault rfl
    rw [answer_missing hload]
    exact ⟨rfl, Render.isParsed_load path hparsed⟩
  | @evaluate e source data _ expr plain hparse h =>
    obtain ⟨houtcome, hafter⟩ := h.outcome_eq data e.language hparsed
    rw [← hm, answer_evaluate hparse, houtcome, Answer.ofValue_remembering, Answer.ofValue_snd]
    exact ⟨rfl, hafter⟩
  | unreadable hparse =>
    rw [← hm, answer_unreadable hparse]
    exact ⟨rfl, hparsed⟩
  | clear =>
    subst hm
    exact ⟨rfl, hparsed⟩
  | change =>
    subst hm
    exact ⟨rfl, hparsed⟩

theorem allAnswered_iff {requests : List Request} {answers : List Answer}
    (hparsed : Render.IsParsed m) :
    AllAnswered requests (m.recalling []) answers ↔ answers = Request.answers requests m := by
  induction requests generalizing m answers with
  | nil =>
    constructor
    · intro h
      cases h
      rfl
    · rintro rfl
      exact .nil
  | cons request requests ih =>
    constructor
    · intro h
      cases h with
      | cons h hs =>
        obtain ⟨hresult, hafter⟩ := h.eq hparsed
        obtain ⟨rfl, rfl⟩ := Prod.ext_iff.mp hresult
        rw [(ih hafter).mp hs]
        rfl
    · rintro rfl
      obtain ⟨result, h⟩ := exists_answered request (m.recalling [])
      obtain ⟨rfl, hafter⟩ := h.eq hparsed
      exact .cons h ((ih hafter).mpr rfl)

/-- An engine that starts with nothing but files answers as one that looks everything up anew: each
function is the one of the first factory that has it, each expression is what its text is parsed
to, and the feeds of a class come from the first factory that made one for the parameters of the
first use in the render. -/
theorem allAnswered_ofFiles_iff (files : Files) (requests : List Request) (answers : List Answer) :
    AllAnswered requests (.ofFiles files) answers ↔
      answers = Request.answers requests (.ofFiles files) :=
  have hparsed : Render.IsParsed (.ofFiles files) := fun _ _ hget => nomatch hget
  allAnswered_iff hparsed

end Engine.Request

end XmlTemplate
