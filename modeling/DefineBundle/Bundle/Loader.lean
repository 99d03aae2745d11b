import DefineBundle.Text.Blank
import DefineBundle.Text.Search

/-!
# Loaders

The scripts that bundles are built around. Each has one place for the code of the modules, which is
written as a statement of its own; putting code there takes away the space before it.
-/
namespace DefineBundle.Loader

open DefineBundle.Text

/-- The lines of the loader of bundles that carry their modules: a module is evaluated as soon as it
is defined, so its dependencies must come before it. -/
def inlineLines : List String := [
  "/**",
  " * Module loader for bundles that carry every module inline. Modules are evaluated as soon",
  " * as they are defined, so the bundle lists them after their dependencies.",
  " */",
  "",
  "/*globals $code */",
  "",
  "(function (exports, undefined) \x7b",
  "\t\"use strict\";",
  "",
  "\tvar modules = \x7b\x7d;",
  "",
  "\tfunction lookup(id) \x7b",
  "\t\tvar target = exports;",
  "\t\tvar fragments = id.split(/[.\\/]/);",
  "",
  "\t\tfor (var fi = 0; fi < fragments.length; ++fi) \x7b",
  "\t\t\tif (!target[fragments[fi]]) \x7b",
  "\t\t\t\treturn;",
  "\t\t\t\x7d",
  "",
  "\t\t\ttarget = target[fragments[fi]];",
  "\t\t\x7d",
  "",
  "\t\treturn target;",
  "\t\x7d",
  "",
  "\tfunction resolve(ids) \x7b",
  "\t\tvar defs = [], i, target;",
  "",
  "\t\tfor (i = 0; i < ids.length; ++i) \x7b",
  "\t\t\ttarget = modules[ids[i]] || lookup(ids[i]);",
  "\t\t\tif (!target) \x7b",
  "\t\t\t\tthrow 'module definition dependency not found: ' + ids[i];",
  "\t\t\t\x7d",
  "",
  "\t\t\tdefs.push(target);",
  "\t\t\x7d",
  "",
  "\t\treturn defs;",
  "\t\x7d",
  "",
  "\tfunction define(id, dependencies, definition) \x7b",
  "\t\tif (typeof id !== 'string') \x7b",
  "\t\t\tthrow 'invalid module definition, module id must be defined and be a string';",
  "\t\t\x7d",
  "",
  "\t\tif (dependencies === undefined) \x7b",
  "\t\t\tthrow 'invalid module definition, dependencies must be specified';",
  "\t\t\x7d",
  "",
  "\t\tif (definition === undefined) \x7b",
  "\t\t\tthrow 'invalid module definition, definition function must be specified';",
  "\t\t\x7d",
  "",
  "\t\tmodules[id] = definition.apply(null, resolve(dependencies));",
  "\t\x7d",
  "",
  "\tfunction register(id) \x7b",
  "\t\tvar target = exports;",
  "\t\tvar fragments = id.split(/[.\\/]/);",
  "",
  "\t\tfor (var fi = 0; fi < fragments.length - 1; ++fi) \x7b",
  "\t\t\tif (target[fragments[fi]] === undefined) \x7b",
  "\t\t\t\ttarget[fragments[fi]] = \x7b\x7d;",
  "\t\t\t\x7d",
  "",
  "\t\t\ttarget = target[fragments[fi]];",
  "\t\t\x7d",
  "",
  "\t\ttarget[fragments[fragments.length - 1]] = modules[id];",
  "\t\x7d",
  "",
  "\tfunction expose(ids) \x7b",
  "\t\tfor (var i = 0; i < ids.length; i++) \x7b",
  "\t\t\tregister(ids[i]);",
  "\t\t\x7d",
  "\t\x7d",
  "",
  "\t$code();",
  "\x7d)(this);"]

/-- The lines of the loader that has the browser load one script for each file. -/
def developmentLines : List String := [
  "/**",
  " * Development loader. Writes one script tag per module with document.write, so the",
  " * browser loads the unbundled files. Never ship this to production.",
  " */",
  "",
  "/*globals $code */",
  "",
  "(function (exports) \x7b",
  "\t\"use strict\";",
  "",
  "\tvar html = \"\", baseDir;",
  "\tvar modules = \x7b\x7d, exposedModules = \x7b\x7d, globals = \x7b\x7d;",
  "",
  "\tvar scripts = document.getElementsByTagName('script');",
  "\tfor (var i = 0; i < scripts.length; i++) \x7b",
  "\t\tvar src = scripts[i].src;",
  "",
  "\t\tif (src.indexOf('/$fileName') != -1) \x7b",
  "\t\t\tbaseDir = src.substring(0, src.lastIndexOf('/'));",
  "\t\t\x7d",
  "\t\x7d",
  "",
  "\tfunction require(ids, callback) \x7b",
  "\t\tvar module, defs = [];",
  "",
  "\t\tfor (var i = 0; i < ids.length; ++i) \x7b",
  "\t\t\tmodule = modules[ids[i]];",
  "\t\t\tif (!module) \x7b",
  "\t\t\t\tthrow 'module definition dependency not found: ' + ids[i];",
  "\t\t\t\x7d",
  "",
  "\t\t\tdefs.push(module);",
  "\t\t\x7d",
  "",
  "\t\tcallback.apply(null, defs);",
  "\t\x7d",
  "",
  "\tfunction register(id) \x7b",
  "\t\tvar target = exports;",
  "\t\tvar fragments = id.split(/[.\\/]/);",
  "",
  "\t\tfor (var fi = 0; fi < fragments.length - 1; ++fi) \x7b",
  "\t\t\tif (target[fragments[fi]] === undefined) \x7b",
  "\t\t\t\ttarget[fragments[fi]] = \x7b\x7d;",
  "\t\t\t\x7d",
  "",
  "\t\t\ttarget = target[fragments[fi]];",
  "\t\t\x7d",
  "",
  "\t\ttarget[fragments[fragments.length - 1]] = modules[id];",
  "\t\x7d",
  "",
  "\tfunction define(id, dependencies, definition) \x7b",
  "\t\tif (typeof id !== 'string') \x7b",
  "\t\t\tthrow 'invalid module definition, module id must be defined and be a string';",
  "\t\t\x7d",
  "",
  "\t\tif (dependencies === undefined) \x7b",
  "\t\t\tthrow 'invalid module definition, dependencies must be specified';",
  "\t\t\x7d",
  "",
  "\t\tif (definition === undefined) \x7b",
  "\t\t\tthrow 'invalid module definition, definition function must be specified';",
  "\t\t\x7d",
  "",
  "\t\trequire(dependencies, function () \x7b",
  "\t\t\tmodules[id] = definition.apply(null, arguments);",
  "",
  "\t\t\tif (globals[id]) \x7b",
  "\t\t\t\texports[globals[id]] = modules[id];",
  "\t\t\t\x7d",
  "\t\t\x7d);",
  "",
  "\t\tif (exposedModules[id]) \x7b",
  "\t\t\tregister(id);",
  "\t\t\x7d",
  "\t\x7d",
  "",
  "\tfunction expose(ids) \x7b",
  "\t\tfor (var i = 0; i < ids.length; i++) \x7b",
  "\t\t\texposedModules[ids[i]] = true;",
  "\t\t\x7d",
  "\t\x7d",
  "",
  "\tfunction load(path) \x7b",
  "\t\thtml += '<script type=\"text/javascript\" src=\"' + baseDir + '/' + path + '\"></script>\\n';",
  "\t\x7d",
  "",
  "\tfunction inline(source) \x7b",
  "\t\thtml += '<script type=\"text/javascript\">' + source.replace(/<\\/script/gi, '<\\\\/script') + '</script>\\n';",
  "\t\x7d",
  "",
  "\tfunction writeScripts() \x7b",
  "\t\tdocument.write(html);",
  "\t\x7d",
  "",
  "\texports.define = define;",
  "\texports.require = require;",
  "",
  "\t$code();",
  "\x7d)(this);"]

def text (lines : List String) : List Char :=
  lines.flatMap fun l => l.toList ++ ['\n']

/-- The loader of bundles that carry their modules. -/
def inlineText : List Char :=
  text inlineLines

/-- The loader that has the browser load one script for each file. -/
def developmentText : List Char :=
  text developmentLines

/-- The name whose call is the place for the code. -/
def codeMarker : String :=
  "$code"

def codePlace : List Char :=
  codeMarker.toList ++ ['(', ')', ';']

/-- The place for the name of the bundle's own file. -/
def fileNamePlace : List Char :=
  ['$', 'f', 'i', 'l', 'e', 'N', 'a', 'm', 'e']

/-- The loader with code at the first place for it, without the space before that place. -/
def insertCode? (loader code : List Char) : Option (List Char) :=
  (splitFirst? codePlace loader).map fun (before, rest) => trimEnd before ++ code ++ rest

end DefineBundle.Loader
