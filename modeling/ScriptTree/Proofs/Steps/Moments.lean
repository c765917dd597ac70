import Mathlib.Logic.Relation
import ScriptTree.Proofs.Steps.EarlyReturn

/-!
# Moments of a run

A run is an activity that begins in a world, with the fuel that bounds activities inside each other
(`Moment`). On the way it comes to activities that are parts of it, each in the world at that moment
(`Moment.Comes`): an expression comes to its parts and to the operations that it calls, reading an
entry comes to the template in it, a sequence of steps to its statements. What an activity stores
itself, apart from its parts, is its stores, with the local frame at that moment (`Moment.Stores`).
-/

set_option autoImplicit false

namespace ScriptTree

/-- What a run does. -/
inductive Activity where
  /-- An expression is evaluated. -/
  | expression (c : Context) (e : Expr)
  /-- The entry of a node under a key is read. -/
  | entry (n : NodeId) (key : String)
  /-- A template is expanded on a node. -/
  | expansion (n : NodeId) (text : String)
  /-- A script is evaluated on a node. -/
  | script (n : NodeId) (text : String)
  /-- A text is expanded and evaluated on a node. -/
  | statement (n : NodeId) (text : String)
  | sequence (n : NodeId) (text : String) (arguments : List (String × Value))
  /-- The steps under a key are run. -/
  | keyed (n : NodeId) (key : String) (arguments : List (String × Value))
  | operation (n : NodeId) (call : Call)

/-- The world that an activity leaves. -/
def Activity.leave (lang : Language) (w : World) : Activity → World
  | .expression c e => (e.eval lang c w).2
  | .entry n key => (n.get lang key w).2
  | .expansion n text => (n.expand lang text w).2
  | .script n text => (n.eval lang text w).2
  | .statement n text => (n.perform lang text w).2
  | .sequence n text arguments => (n.steps lang text arguments w).2
  | .keyed n key arguments => (n.call lang key arguments w).2
  | .operation n request => (n.invoke lang request w).2

/-- The nodes that an activity is given. -/
def Activity.nodes : Activity → List NodeId
  | .expression c _ => c.nodes
  | .entry n _ | .expansion n _ | .script n _ | .statement n _ => [n]
  | .sequence n _ arguments | .keyed n _ arguments =>
      n :: arguments.flatMap fun p => p.2.nodes
  | .operation n request => n :: Value.allNodes request.arguments

/-- An activity begins. -/
structure Moment where
  fuel : Nat
  activity : Activity
  world : World

/-! ## Parts of an activity -/

/-- The world in which an expansion begins, with its context. -/
def World.expansionOpened (w : World) (c : Context) : World :=
  { w.hold c.nodes with expansions := w.expansions + 1 }

/-- An activity comes to another one as a part of it. -/
inductive Moment.Comes : Moment → Moment → Prop
  | part {fuel : Nat} {c : Context} {e e' : Expr} {w w' : World}
      (part : Expr.Part (.ofFuel fuel) c e w e' w') :
      Comes ⟨fuel, .expression c e, w⟩ ⟨fuel, .expression c e', w'⟩
  /-- A bare name that is not reserved and not in the frame is read from the node that holds it. -/
  | name {fuel : Nat} {c : Context} {s : String} {w : World} {holder : NodeId}
      (free : c.binding s = none) (unbound : w.getRaw c.frame s = none)
      (held : w.holder? c.this s = some holder) :
      Comes ⟨fuel, .expression c (.name s), w⟩ ⟨fuel, .entry holder s, w.hold [holder]⟩
  | member {fuel : Nat} {c : Context} {target : Expr} {s : String} {w w₁ : World} {n : NodeId}
      (found : target.eval (.ofFuel fuel) c w = (.done (.node n), w₁)) :
      Comes ⟨fuel, .expression c (.member target s), w⟩ ⟨fuel, .entry n s, w₁.hold [n]⟩
  | index {fuel : Nat} {c : Context} {target key : Expr} {w w₁ w₂ : World} {n : NodeId} {k : Value}
      (found : target.eval (.ofFuel fuel) c w = (.done (.node n), w₁))
      (done : key.eval (.ofFuel fuel) c (w₁.hold [n]) = (.done k, w₂)) :
      Comes ⟨fuel, .expression c (.index target key), w⟩
        ⟨fuel, .entry n ((w₂.hold k.nodes).text k), w₂.hold k.nodes⟩
  | called {fuel : Nat} {c : Context} {s : String} {arguments : List Expr} {w w₁ : World}
      {values : List Value} (operation : s ≠ "return" ∧ s ≠ "raise")
      (done : Expr.evalAll (.ofFuel fuel) c arguments w = (.done values, w₁)) :
      Comes ⟨fuel, .expression c (.call s arguments), w⟩
        ⟨fuel, .operation c.this ⟨s, values⟩, w₁.hold (Value.allNodes values)⟩
  | sent {fuel : Nat} {c : Context} {receiver : Expr} {s : String} {arguments : List Expr}
      {w w₁ w₂ : World} {values : List Value} {n : NodeId}
      (done : Expr.evalAll (.ofFuel fuel) c arguments w = (.done values, w₁))
      (found : receiver.eval (.ofFuel fuel) c (w₁.hold (Value.allNodes values)) =
        (.done (.node n), w₂)) :
      Comes ⟨fuel, .expression c (.send receiver s arguments), w⟩
        ⟨fuel, .operation n ⟨s, values⟩, w₂.hold [n]⟩
  | template {fuel : Nat} {n : NodeId} {key text : String} {w : World}
      (stored : w.getRaw n key = some (.text text)) :
      Comes ⟨fuel, .entry n key, w⟩ ⟨fuel, .expansion n text, w⟩
  /-- The expression of a hole, after the pieces before it are filled. -/
  | hole {fuel : Nat} {n : NodeId} {text : String} {w w₁ w₂ : World} {c : Context}
      {before after : List Template.Piece} {body filled : List Char} {e : Expr}
      (expands : w.expandsOn n = true) (context : Context.create n w = (.done c, w₁))
      (shallow : w₁.expansions < Template.depthLimit)
      (pieces : Template.pieces text.toList = before ++ .hole body :: after)
      (done : Template.renderAll (.ofFuel fuel) c before (w₁.expansionOpened c) =
        (.done filled, w₂))
      (parsed : Expr.parse (String.ofList (Text.trim body)) = .ok e) :
      Comes ⟨fuel + 1, .expansion n text, w⟩ ⟨fuel, .expression c e, w₂⟩
  /-- A statement of a script, after those before it are done. -/
  | scripted {fuel : Nat} {n : NodeId} {text s : String} {w w₁ w₂ : World} {c : Context}
      {before after : List String} {last : Value} {e : Expr} (evaluates : w.evaluatesOn n = true)
      (context : Context.create n w = (.done c, w₁))
      (statements : Script.statements text = before ++ s :: after)
      (done : (Language.ofFuel (fuel + 1)).evaluateAll c before .null (w₁.hold c.nodes) =
        (.done last, w₂))
      (parsed : Expr.parse s = .ok e) :
      Comes ⟨fuel + 1, .script n text, w⟩ ⟨fuel, .expression c e, w₂.hold last.nodes⟩
  | expanded {fuel : Nat} {n : NodeId} {text : String} {w : World} :
      Comes ⟨fuel, .statement n text, w⟩ ⟨fuel, .expansion n text, w⟩
  | evaluated {fuel : Nat} {n : NodeId} {text script : String} {w w₁ : World}
      (done : n.expand (.ofFuel fuel) text w = (.done script, w₁)) :
      Comes ⟨fuel, .statement n text, w⟩ ⟨fuel, .script n script, w₁⟩
  | step {fuel : Nat} {n : NodeId} {text s : String} {arguments : List (String × Value)}
      {w w₁ : World} (reached : n.ComesTo (.ofFuel fuel) text arguments w s w₁) :
      Comes ⟨fuel, .sequence n text arguments, w⟩ ⟨fuel, .statement n s, w₁⟩
  | stored {fuel : Nat} {n : NodeId} {key : String} {arguments : List (String × Value)} {w : World}
      {value : Value} (found : (w.getRaw n key).filter (fun value => !value.isNull) = some value) :
      Comes ⟨fuel, .keyed n key arguments, w⟩
        ⟨fuel, .sequence n (w.stepsText value) arguments, w⟩
  | whileDo {fuel : Nat} {n : NodeId} {call : Call} {test : String} {operations : Value}
      {limit : Nat} {w w₁ : World} {item : LoopItem} (method : call.method = "whileDo")
      (argument : call.text 0 = .ok test) (value : call.value 1 = .ok operations)
      (count : call.count 2 = .ok limit)
      (reached : n.Reaches (.ofFuel fuel) test (w.stepsList operations) limit w item w₁) :
      Comes ⟨fuel, .operation n call, w⟩ ⟨fuel, .statement n (item.text test), w₁⟩
  | whileDoAll {fuel : Nat} {n : NodeId} {call : Call} {test : String} {operations : Value}
      {limit : Nat} {w w₁ : World} {item : LoopItem} (method : call.method = "whileDoAll")
      (value : call.value 1 = .ok operations) (argument : call.text 0 = .ok test)
      (count : call.count 2 = .ok limit)
      (reached : n.Reaches (.ofFuel fuel) test (w.allTexts operations) limit w item w₁) :
      Comes ⟨fuel, .operation n call, w⟩ ⟨fuel, .statement n (item.text test), w₁⟩
  | test {fuel : Nat} {n : NodeId} {call : Call} {test : String} {yes : Value} {w : World}
      (method : call.method = "ifThen" ∨
        call.method = "ifThenElse" ∧ ∃ no, call.value 2 = .ok no)
      (argument : call.text 0 = .ok test) (value : call.value 1 = .ok yes) :
      Comes ⟨fuel, .operation n call, w⟩ ⟨fuel, .statement n test, w⟩
  | branch {fuel : Nat} {n : NodeId} {call : Call} {test : String} {yes : Value} {w w₁ : World}
      (method : call.method = "ifThen" ∨
        call.method = "ifThenElse" ∧ ∃ no, call.value 2 = .ok no)
      (argument : call.text 0 = .ok test) (value : call.value 1 = .ok yes)
      (holds : n.test (.ofFuel fuel) test w = (.done true, w₁)) :
      Comes ⟨fuel, .operation n call, w⟩ ⟨fuel, .sequence n (w₁.stepsText yes) [], w₁⟩
  | otherwise {fuel : Nat} {n : NodeId} {call : Call} {test : String} {no : Value} {w w₁ : World}
      (method : call.method = "ifThenElse") (argument : call.text 0 = .ok test)
      (value : call.value 2 = .ok no)
      (fails : n.test (.ofFuel fuel) test w = (.done false, w₁)) :
      Comes ⟨fuel, .operation n call, w⟩ ⟨fuel, .sequence n (w₁.stepsText no) [], w₁⟩
  | tried {fuel : Nat} {n : NodeId} {call : Call} {operations handler : Value} {w : World}
      (method : call.method = "tryExcept") (value : call.value 0 = .ok operations)
      (value' : call.value 1 = .ok handler) :
      Comes ⟨fuel, .operation n call, w⟩ ⟨fuel, .sequence n (w.stepsText operations) [], w⟩
  /-- The handler, after the failure is reported. -/
  | handled {fuel : Nat} {n : NodeId} {call : Call} {operations handler : Value} {w w₁ w₂ : World}
      {cause : Failure} {report : String} (method : call.method = "tryExcept")
      (value : call.value 0 = .ok operations) (value' : call.value 1 = .ok handler)
      (failed : n.stepsOf (.ofFuel fuel) operations w = (.failed cause, w₁))
      (reported : n.notify .exceptionHandled report w₁ = (.done (), w₂)) :
      Comes ⟨fuel, .operation n call, w⟩
        ⟨fuel, .sequence n (w₂.stepsText handler) [("exception", .failure cause)], w₂⟩
  | steps {fuel : Nat} {n : NodeId} {call : Call} {script : String} {w : World}
      (method : call.method = "steps") (argument : call.text 0 = .ok script) :
      Comes ⟨fuel, .operation n call, w⟩ ⟨fuel, .sequence n script (call.entries w 1), w⟩
  | keyed {fuel : Nat} {n : NodeId} {call : Call} {key : String} {w : World}
      (method : call.method = "call") (argument : call.text 0 = .ok key) :
      Comes ⟨fuel, .operation n call, w⟩ ⟨fuel, .keyed n key (call.entries w 1), w⟩
  | run {fuel : Nat} {n : NodeId} {call : Call} {w : World} (method : call.method = "run") :
      Comes ⟨fuel, .operation n call, w⟩ ⟨fuel, .keyed n (n.runsKey w) [], w⟩
  | script {fuel : Nat} {n : NodeId} {call : Call} {text : String} {w : World}
      (method : call.method = "getItem" ∨ call.method = "eval")
      (argument : call.text 0 = .ok text) :
      Comes ⟨fuel, .operation n call, w⟩ ⟨fuel, .script n text, w⟩
  | get {fuel : Nat} {n : NodeId} {call : Call} {key : String} {w : World}
      (method : call.method = "get") (argument : call.text 0 = .ok key) :
      Comes ⟨fuel, .operation n call, w⟩ ⟨fuel, .entry n key, w⟩
  | delay {fuel : Nat} {n : NodeId} {call : Call} {w : World}
      (method : call.method = "maybeDelay") :
      Comes ⟨fuel, .operation n call, w⟩ ⟨fuel, .entry n "$delay", w⟩
  | expand {fuel : Nat} {n : NodeId} {call : Call} {text : String} {w : World}
      (method : call.method = "expand") (argument : call.text 0 = .ok text) :
      Comes ⟨fuel, .operation n call, w⟩ ⟨fuel, .expansion n text, w⟩

/-! ## Stores -/

namespace Expr

variable (lang : Language) (c : Context)

/-- Storing a value where an expression is read from, in the world, stores in the node. -/
inductive StoresIn : Value → Expr → World → NodeId → Prop
  | name {value : Value} {s : String} {w : World} {n : NodeId} (held : c.holder? w s = some n) :
      StoresIn value (.name s) w n
  | member {value : Value} {target : Expr} {s : String} {w w₁ : World} {n : NodeId}
      (found : target.eval lang c w = (.done (.node n), w₁)) :
      StoresIn value (.member target s) w n
  | index {value : Value} {target key : Expr} {w w₁ w₂ : World} {k : Value} {n : NodeId}
      (done : key.eval lang c w = (.done k, w₁))
      (found : target.eval lang c (w₁.hold k.nodes) = (.done (.node n), w₂)) :
      StoresIn value (.index target key) w n
  /-- An item of a list is stored by storing the changed list. -/
  | item {value : Value} {target key : Expr} {w w₁ w₂ : World} {k : Value} {items : List Value}
      {i : Nat} {n : NodeId} (done : key.eval lang c w = (.done k, w₁))
      (found : target.eval lang c (w₁.hold k.nodes) = (.done (.list items), w₂))
      (place : k.index?.filter (· < items.length) = some i)
      (stored : StoresIn (.list (items.set i value)) target
        (({ w₂ with held := w₁.held } : World).hold (k.nodes ++ (Value.list items).nodes)) n) :
      StoresIn value (.index target key) w n

end Expr

/-- The way in which an entry is stored. -/
inductive Route where
  /-- A member, an item or a changed list is stored where it is read from. -/
  | place
  /-- An operation puts an entry, or a bare name is assigned. -/
  | put
  /-- An operation removes an entry. -/
  | removal
  /-- A document is loaded. -/
  | load
  deriving DecidableEq

/-- A store that a run makes. -/
structure Store where
  target : NodeId
  /-- The local frame at that moment. -/
  frame : Option NodeId
  route : Route

/-- The store goes to the local frame. -/
def Store.Local (s : Store) : Prop := s.frame = some s.target

/-- The store goes to the local frame, to a place there or by removing an entry. -/
def Store.Binds (s : Store) : Prop := s.Local ∧ (s.route = .place ∨ s.route = .removal)

theorem Store.Binds.route_ne {s : Store} (h : s.Binds) : s.route ≠ .put ∧ s.route ≠ .load := by
  rcases h.2 with hroute | hroute <;> simp [hroute]

/-- An activity makes a store itself, outside of its parts. -/
inductive Moment.Stores : Moment → Store → Prop
  | name {fuel : Nat} {c : Context} {s : String} {e : Expr} {w w₁ : World} {value : Value}
      (free : c.binding s = none) (done : e.eval (.ofFuel fuel) c w = (.done value, w₁)) :
      Stores ⟨fuel, .expression c (.assign (.name s) e), w⟩ ⟨c.this, some c.frame, .put⟩
  | assigned {fuel : Nat} {c : Context} {place e : Expr} {w w₁ : World} {value : Value}
      {n : NodeId} (compound : ∀ s, place ≠ .name s)
      (done : e.eval (.ofFuel fuel) c w = (.done value, w₁))
      (stored : Expr.StoresIn (.ofFuel fuel) c value place (w₁.hold value.nodes) n) :
      Stores ⟨fuel, .expression c (.assign place e), w⟩ ⟨n, some c.frame, .place⟩
  /-- A list that a method has changed is stored. -/
  | changed {fuel : Nat} {c : Context} {receiver : Expr} {s : String} {arguments : List Expr}
      {w w₁ w₂ w₃ : World} {values items : List Value} {t value : Value} {n : NodeId}
      (done : Expr.evalAll (.ofFuel fuel) c arguments w = (.done values, w₁))
      (found : receiver.eval (.ofFuel fuel) c (w₁.hold (Value.allNodes values)) = (.done t, w₂))
      (called : Context.callMethod (.ofFuel fuel) t ⟨s, values⟩ (w₂.hold t.nodes) =
        (.done (value, some items), w₃))
      (stored : Expr.StoresIn (.ofFuel fuel) c (.list items) receiver (w₃.hold value.nodes) n) :
      Stores ⟨fuel, .expression c (.send receiver s arguments), w⟩ ⟨n, some c.frame, .place⟩
  | put {fuel : Nat} {n : NodeId} {call : Call} {key : String} {value : Value} {w : World}
      (method : call.method = "put") (argument : call.text 0 = .ok key)
      (stored : call.value 1 = .ok value) :
      Stores ⟨fuel, .operation n call, w⟩ ⟨n, w.frames.head?, .put⟩
  | putStatic {fuel : Nat} {n : NodeId} {call : Call} {key : String} {value : Value} {w : World}
      (method : call.method = "putStatic") (argument : call.text 0 = .ok key)
      (stored : call.value 1 = .ok value) (engined : (w.cell n).engined = true) :
      Stores ⟨fuel, .operation n call, w⟩ ⟨w.static, w.frames.head?, .put⟩
  | remove {fuel : Nat} {n : NodeId} {call : Call} {key : String} {w : World}
      (method : call.method = "remove") (argument : call.text 0 = .ok key) :
      Stores ⟨fuel, .operation n call, w⟩ ⟨n, w.frames.head?, .removal⟩
  | load {fuel : Nat} {n : NodeId} {call : Call} {text : String} {w : World}
      (method : call.method = "appendFromJson" ∨ call.method = "insertFromJson" ∨
        call.method = "appendFromXml") (argument : call.text 0 = .ok text) :
      Stores ⟨fuel, .operation n call, w⟩ ⟨n, w.frames.head?, .load⟩

/-- All stores of the run that begins at the moment are as `P` says. -/
def Moment.Only (P : Store → Prop) (m : Moment) : Prop :=
  ∀ m', Relation.ReflTransGen Moment.Comes m m' → ∀ s, m'.Stores s → P s

/-- All stores of the run bind in the local frame. -/
def Moment.OnlyBinds (m : Moment) : Prop := m.Only Store.Binds

theorem Moment.OnlyBinds.part {m m' : Moment} (h : m.OnlyBinds) (hcomes : m.Comes m') :
    m'.OnlyBinds := fun m'' hlater => h m'' (.head hcomes hlater)

theorem Moment.OnlyBinds.binds {m : Moment} (h : m.OnlyBinds) {s : Store} (hstores : m.Stores s) :
    s.Binds := h m .refl s hstores

end ScriptTree
