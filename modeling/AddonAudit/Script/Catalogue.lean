import AddonAudit.Script.Registry

/-!
# The standard catalogue

The host interfaces that the analysis knows: the window and the functions that evaluate code, the
component classes and interfaces, preferences, and the members of document nodes that are risky on
whatever object they are reached.
-/

namespace AddonAudit.Script.Catalogue

/-- An entity that is only known. -/
def plain : Behavior := {}

/-- An entity that may not be assigned. -/
def readonly : Behavior := { readonly := .yes }

def linkTo (path : List String) : Behavior := { value := some (.link path) }

def onCall (hook : CallHook) : Behavior := { onCall := some hook }

def onSet (hook : SetHook) : Behavior := { onSet := some hook }

def dangerous (advice : Advice) : Behavior := { dangerous := some .always, advice }

def interface (name : String) (members : List String) : List String :=
  "Components" :: "interfaces" :: name :: members

/-- Objects of the language whose prototypes must not be extended. -/
def builtins : List String :=
  ["Object", "Array", "String", "Number", "Boolean", "Date", "RegExp", "Error", "Promise", "Map",
    "Set", "WeakMap", "Symbol"]

def builtin (name : String) : List (List String × Behavior) :=
  [([name], readonly), ([name, "prototype"], readonly),
    ([name, "prototype", "*"], onSet .extendsPrototype)]

def documentWrite : Advice where
  message := some "Use of \x60document.write\x60 strongly discouraged"
  description := some
    "\x60document.write\x60 fails in XUL documents and replaces the page in HTML ones."

def window : List (List String × Behavior) :=
  [(["window"], { readonly with globalScope := true })] ++
  (["top", "parent", "self", "window", "content"].map fun name =>
    (["window", name], { linkTo ["window"] with readonly := .yes })) ++
  [(["self"], { linkTo ["window"] with readonly := .yes }),
    (["top"], { linkTo ["window"] with readonly := .yes }),
    (["document"], readonly),
    (["location"], { readonly := .exceptText }),
    (["document", "location"], { readonly := .exceptText }),
    (["document", "write"], dangerous documentWrite),
    (["document", "writeln"], dangerous documentWrite),
    (["eval"], { dangerous {
        message := some "\x60eval\x60 can be harmful"
        description := some "Evaluating strings as code is unsafe and almost always avoidable."
        signing := some .high } with readonly := .yes }),
    (["Function"], { dangerous {
        message := some "The \x60Function\x60 constructor is \x60eval\x60 by another name"
        signing := some .high } with readonly := .yes }),
    (["Function", "prototype"], readonly),
    (["Function", "prototype", "*"], onSet .extendsPrototype),
    (["setTimeout"], { dangerous := some (.check .stringTimer), readonly := .yes }),
    (["setInterval"], { dangerous := some (.check .stringTimer), readonly := .yes })]

def objects : List (List String × Behavior) :=
  builtins.flatMap builtin ++
  [(["Math"], readonly),
    (["Math", "PI"],
      { value := some (.constant 3.141592653589793), isConst := true, readonly := .yes }),
    (["Math", "E"],
      { value := some (.constant 2.718281828459045), isConst := true, readonly := .yes }),
    (["JSON"], readonly),
    (["gBrowser"], { readonly with overwriteable := true }),
    (["gBrowser", "contentWindow"],
      { dangerousOnRead := true
        advice := {
          id := some ["javascript", "cpow", "content_window"]
          severity := some .warning
          message := some "Direct access to the content window from chrome code"
          description := some <| "Content lives in a separate process; use a frame script and " ++
            "message passing instead of reaching into \x60gBrowser.contentWindow\x60." } }),
    (["XMLHttpRequest"], onCall (.returnsInterface "nsIXMLHttpRequest"))]

def components : List (List String × Behavior) :=
  [(["Components"], readonly),
    (["Components", "classes"], readonly),
    (["Components", "classes", "*"], { openEnded := true }),
    (["Components", "classes", "*", "createInstance"], onCall .typedByInterface),
    (["Components", "classes", "*", "getService"], onCall .typedByInterface),
    (["Components", "interfaces"], readonly),
    (["Components", "interfaces", "*"], plain),
    (["Components", "results"], readonly),
    (["Components", "utils"], readonly),
    (["Components", "utils", "evalInSandbox"], dangerous {
      message := some "\x60evalInSandbox\x60 runs arbitrary code"
      description := some "Code evaluated in a sandbox must not come from a remote source."
      signing := some .high }),
    (["Components", "utils", "Sandbox"], dangerous {
      severity := some .notice
      message := some "Use of \x60Components.utils.Sandbox\x60"
      signing := some .low })] ++
  ([("Cc", "classes"), ("Ci", "interfaces"), ("Cu", "utils"), ("Cr", "results")].map
    fun (name, target) =>
      ([name], { linkTo ["Components", target] with readonly := .yes, overwriteable := true }))

def services : List (List String × Behavior) :=
  [(["Services"], { readonly with overwriteable := true })] ++
  ([("prefs", "nsIPrefBranch"), ("obs", "nsIObserverService"), ("wm", "nsIWindowMediator"),
    ("search", "nsIBrowserSearchService")].map fun (name, target) =>
      (["Services", name], linkTo (interface target []))) ++
  [(["netscape", "security", "PrivilegeManager", "enablePrivilege"], dangerous {
      severity := some .error
      message := some "\x60enablePrivilege\x60 is not allowed"
      description := some
        "Privilege escalation from content scripts was removed from the platform."
      signing := some .high })]

def requestInterfaces : List (List String × Behavior) :=
  [(interface "nsIXMLHttpRequest" [], plain),
    (interface "nsIXMLHttpRequest" ["open"], { dangerous := some (.check .insecureRequest) })] ++
  (["send", "abort", "setRequestHeader", "channel", "responseText"].map fun member =>
    (interface "nsIXMLHttpRequest" [member], plain)) ++
  [(interface "nsIPrefBranch" [], plain)] ++
  (["setCharPref", "setBoolPref", "setIntPref", "setComplexValue", "setStringPref",
    "clearUserPref"].map fun member =>
      (interface "nsIPrefBranch" [member], onCall .writesPreference)) ++
  (["getCharPref", "getBoolPref", "getIntPref", "getComplexValue", "getStringPref",
    "prefHasUserValue"].map fun member =>
      (interface "nsIPrefBranch" [member], onCall .readsPreference)) ++
  [(interface "nsIPrefBranch" ["getBranch"], onCall (.returnsInterface "nsIPrefBranch")),
    (interface "nsIPrefService" [], plain),
    (interface "nsIPrefService" ["getBranch"], onCall (.returnsInterface "nsIPrefBranch")),
    (interface "nsIPrefService" ["getDefaultBranch"], onCall (.returnsInterface "nsIPrefBranch"))]

def systemInterfaces : List (List String × Behavior) :=
  [(interface "nsIProcess" [], { advice := {
      message := some "Launching external processes"
      description := some
        "Starting native processes gives the add-on full control over the system."
      signing := some .high } })] ++
  (["run", "runAsync", "runw"].map fun member => (interface "nsIProcess" [member], dangerous {})) ++
  [(interface "nsIFile" [], plain),
    (interface "nsIFile" ["launch"], dangerous {
      message := some "Launching files with \x60nsIFile.launch\x60"
      signing := some .high }),
    (interface "nsILocalFile" [], linkTo (interface "nsIFile" [])),
    (interface "nsIWindowMediator" [], plain)] ++
  (["getMostRecentWindow", "getOuterWindowWithId"].map fun member =>
    (interface "nsIWindowMediator" [member], onCall (.returnsInterface "nsIDOMWindow"))) ++
  [(interface "nsIObserverService" [], plain)] ++
  (["addObserver", "removeObserver", "notifyObservers"].map fun member =>
    (interface "nsIObserverService" [member], plain)) ++
  [(interface "nsIBrowserSearchService" [], plain)] ++
  (["currentEngine", "defaultEngine"].map fun member =>
    (interface "nsIBrowserSearchService" [member], onSet .changesEngine)) ++
  [(interface "nsIJSON" [], { advice := {
      severity := some .notice
      message := some "\x60nsIJSON\x60 is deprecated"
      description := some "Use the native \x60JSON\x60 object instead." } }),
    (interface "nsIJSON" ["encode"], dangerous {}),
    (interface "nsIJSON" ["decode"], dangerous {}),
    (interface "nsIDOMWindow" [], plain),
    (interface "nsIDOMWindow" ["openDialog"], onCall (.returnsInterface "nsIDOMWindow")),
    (interface "nsIInterfaceRequestor" [], plain),
    (interface "nsIInterfaceRequestor" ["getInterface"], onCall .typedByInterface)]

def preferences : List (List String × Behavior) :=
  [(["Preferences"], { readonly with overwriteable := true }),
    (["Preferences", "set"], onCall .writesPreference),
    (["Preferences", "reset"], onCall .writesPreference),
    (["Preferences", "get"], onCall .readsPreference),
    (["Preferences", "has"], onCall .readsPreference)]

def members : List (List String × Behavior) :=
  [(["**", "on*"], onSet .setsHandler),
    (["**", "innerHTML"], onSet .setsMarkup),
    (["**", "outerHTML"], onSet .setsMarkup),
    (["**", "__exposedProps__"], onSet .exposesProperties),
    (["**", "wrappedJSObject"], { onGet := some .unwraps }),
    (["**", "setAttribute"], onCall .setsAttribute),
    (["**", "createElement"], onCall (.createsElement 0)),
    (["**", "createElementNS"], onCall (.createsElement 1)),
    (["**", "QueryInterface"], onCall .typedByInterface),
    (["**", "getInterface"], onCall .typedByInterface),
    (["**", "insertAdjacentHTML"], onCall .insertsMarkup),
    (["**", "addEventListener"], onCall .addsListener)]

def entries : List (List String × Behavior) :=
  window ++ objects ++ components ++ services ++ requestInterfaces ++ systemInterfaces ++
    preferences ++ members

def registryOf (entries : List (List String × Behavior)) : Registry :=
  match Registry.empty.registerAll entries |>.bind Registry.check with
  | .ok r => r
  | .error _ => .empty

def standard : Registry :=
  registryOf entries

end AddonAudit.Script.Catalogue
