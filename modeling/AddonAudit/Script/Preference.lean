import AddonAudit.Finding

/-!
# Guarded preferences

The preferences that an add-on must not change. A name that ends in a dot stands for all preferences
below it.
-/

namespace AddonAudit

/-- A preference, or a branch of them, that must not be changed. -/
structure GuardedPreference where
  name : String
  signing : SigningSeverity
  reason : String
  deriving DecidableEq, Repr

namespace GuardedPreference

def isBranch (p : GuardedPreference) : Bool :=
  p.name.toList.getLast? = some '.'

def covers (p : GuardedPreference) (name : String) : Bool :=
  if p.isBranch then p.name.toList.isPrefixOf name.toList else name = p.name

def table : List GuardedPreference := [
  ⟨"browser.startup.homepage", .high,
    "Changing the homepage requires the user's explicit consent."⟩,
  ⟨"browser.newtab.url", .high,
    "Changing the new tab page requires the user's explicit consent."⟩,
  ⟨"browser.newtabpage.enabled", .medium,
    "The new tab page belongs to the user."⟩,
  ⟨"browser.search.defaultenginename", .high,
    "Search settings must be changed through the search service with consent."⟩,
  ⟨"browser.search.selectedEngine", .high,
    "Search settings must be changed through the search service with consent."⟩,
  ⟨"browser.search.searchEnginesURL", .high,
    "Search settings must be changed through the search service with consent."⟩,
  ⟨"keyword.URL", .high,
    "Location bar keyword searches must not be redirected."⟩,
  ⟨"keyword.enabled", .high,
    "Location bar keyword searches must not be redirected."⟩,
  ⟨"xpinstall.signatures.required", .high,
    "Add-ons must not disable signature enforcement."⟩,
  ⟨"app.update.", .high,
    "Application updates must not be tampered with."⟩,
  ⟨"extensions.blocklist.", .high,
    "The add-on blocklist must not be tampered with."⟩,
  ⟨"extensions.getAddons.", .medium,
    "Add-on discovery settings must not be changed."⟩,
  ⟨"security.", .high,
    "Security preferences must not be weakened by add-ons."⟩,
  ⟨"capability.policy.", .high,
    "Capability policies grant web content extra privileges."⟩,
  ⟨"network.proxy.", .medium,
    "Proxy settings route all of the user's traffic."⟩,
  ⟨"general.useragent.", .medium,
    "Changing the user agent affects every site the user visits."⟩]

def find? (name : String) : Option GuardedPreference :=
  table.find? (·.covers name)

end GuardedPreference

end AddonAudit
