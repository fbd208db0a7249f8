import ViewSync.View.Compile

/-!
# ViewSync.View.Receiver

The program at the other end of the wire, written in the view language itself: it keeps the definitions
and the components, applies the frames it receives, and sends the requests of its components. It is
compiled like any view, with one more name in its table.
-/

namespace ViewSync.Receiver

/-- The lines of the receiver's source. -/
def sourceLines : List String :=
  [
   "",
   "class MirrorRuntime:",
   "    def constructor(socket):",
   "        this.socket = socket",
   "        this.definitions = \x7b\x7d",
   "        this.components = \x7b\x7d",
   "        socket.addEventListener(\"message\", lambda event: this.receive(JSON.parse(event.data)))",
   "",
   "    def receive(message):",
   "        kind = message[\"type\"]",
   "        if kind == \"class\":",
   "            this.definitions[message[\"clss\"]] = eval(\"(\" + message[\"defn\"] + \")\")",
   "        elif kind == \"new\":",
   "            Definition = this.definitions[message[\"clss\"]]",
   "            component = Definition()",
   "            component.comp_id = message[\"comp_id\"]",
   "            component.state = \x7b\x7d",
   "            component.ask_update = this.sender(message[\"comp_id\"])",
   "            this.components[message[\"comp_id\"]] = component",
   "        elif kind == \"state_change\":",
   "            component = this.components[message[\"comp_id\"]]",
   "            if component == undefined:",
   "                return",
   "            change = this.resolve(message[\"state_change\"])",
   "            Object.assign(component.state, change)",
   "            if component.handle != undefined:",
   "                component.handle(change)",
   "        elif kind == \"delete\":",
   "            del this.components[message[\"comp_id\"]]",
   "",
   "    def sender(comp_id):",
   "        return lambda payload: this.ask_update(comp_id, payload)",
   "",
   "    def ask_update(comp_id, payload):",
   "        message = \x7b\"type\": \"user_event\", \"comp_id\": comp_id, \"user_event\": payload\x7d",
   "        this.socket.send(JSON.stringify(message))",
   "",
   "    def resolve(value):",
   "        if Array.isArray(value):",
   "            return value.map(lambda item: this.resolve(item))",
   "        if is_plain_object(value):",
   "            if value[\"comp_id\"] != undefined and Object.keys(value).length == 1:",
   "                return this.components[value[\"comp_id\"]]",
   "            resolved = \x7b\x7d",
   "            for key, item in value.items():",
   "                resolved[key] = this.resolve(item)",
   "            return resolved",
   "        return value",
   ""
  ]

/-- The receiver's source. -/
def source : String :=
  "\n".intercalate sourceLines

/-- The names that the receiver uses. -/
def table : Replacements :=
  Replacements.default.insert "is_plain_object"
    "((v) => v !== null && typeof v === \"object\" && !Array.isArray(v))"

/-- The compiled receiver. -/
def compiled : Except CompileError String := do
  let items ← compileSource "mirror_runtime" source table
  return "\n\n".intercalate (items.map (·.source))

end ViewSync.Receiver
